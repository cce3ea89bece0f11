import Atoman.SectionStl.Timing

/-!
# Who goes on the processor

What each part of a switch or a completion does to the order of the ready queue, to the
states of the tasks and to what is left of their slices.
-/

namespace Atoman.SectionStl

/-- What the turns of a task depend on. -/
def Task.charge (task : Task) : TaskState × UInt32 := (task.state, task.quantum_left)

namespace State
variable {cfg : Config} {s s' u : State} {xs ys : List ℕ} {out : Option ℕ} {g t v : ℕ} {port : Port}

theorem state_of_charge {task task' : Task} (h : task'.charge = task.charge) :
    task'.state = task.state := congrArg Prod.fst h

theorem quantum_of_charge {task task' : Task} (h : task'.charge = task.charge) :
    task'.quantum_left = task.quantum_left := congrArg Prod.snd h

/-- The task runs or is suspended. -/
def Held (s : State) (t : ℕ) : Prop := (s.tasks t).state = .old ∨ (s.tasks t).state = .running

theorem held_of_charge (h : (s'.tasks t).charge = (s.tasks t).charge) : s'.Held t ↔ s.Held t := by
  unfold Held
  rw [state_of_charge h]

/-- Cancelling a group puts some tasks to sleep. -/
theorem charge_cancel (cfg : Config) (s : State) (g v : ℕ) :
    ((s.groupCancel cfg g).tasks v).charge =
    ((s.readyRemove cfg (s.groups g).handle true).tasks v).charge := by
  have htask : ((s.cancelTasks cfg (s.groups g).handle (s.groups g).tasks).tasks v).charge =
      ((s.readyRemove cfg (s.groups g).handle true).tasks v).charge := by
    show (if v ∈ (s.groups g).tasks then
      { (s.readyRemove cfg (s.groups g).handle true).tasks v with record := none }
      else (s.readyRemove cfg (s.groups g).handle true).tasks v).charge = _
    split <;> rfl
  rw [groupCancel_eq]
  split
  · exact htask
  · exact htask

/-! ## The start of a task -/

/-- The task is put on the processor. -/
structure Started (cfg : Config) (s s' : State) (t : ℕ) : Prop where
  current : s'.current = some t
  running : (s'.tasks t).state = .running
  quantum : (s'.tasks t).quantum_left =
    if (s.tasks t).state = .old then (s.tasks t).quantum_left else cfg.slice_ticks
  others : ∀ v, v ≠ t → (s'.tasks v).charge = (s.tasks v).charge

theorem fault_corrupt (s : State) : s.corrupt.fault ≠ .ok := by
  show Status.corrupt ≠ .ok
  decide

theorem fault_returnNative (h : s.fault ≠ .ok) (port : Port) :
    (s.returnNative port).1.fault ≠ .ok := by
  rw [returnNative_eq]
  split
  · exact h
  · exact fault_corrupt s

theorem enterTask_cases (cfg : Config) (port : Port) (s : State) (t : ℕ) (p_next_sp : Option ℕ) :
    (s.enterTask cfg port t p_next_sp).1.fault ≠ .ok ∨
      (s.enterTask cfg port t p_next_sp).1.current = some t ∧
      (s.enterTask cfg port t p_next_sp).1.ready = s.ready ∧
      (s.enterTask cfg port t p_next_sp).1.tasks =
        Function.update s.tasks t { s.tasks t with state := .running } := by
  have hcorrupt (u : State) : (u.corrupt.returnNative port).1.fault ≠ .ok :=
    fault_returnNative (fault_corrupt u) port
  unfold enterTask
  split
  · exact Or.inl (hcorrupt s)
  · rcases frameWords_cases cfg s p_next_sp with ⟨hbad, -⟩ | ⟨sp, rfl, hframe, hgood⟩
    · rw [hbad]
      exact Or.inl (hcorrupt s.corrupt)
    · obtain ⟨n, hn⟩ : ∃ n, cfg.stack_words - sp = n + 1 := ⟨_, (Nat.succ_pred_eq_of_pos
        (Nat.sub_pos_of_lt hframe.2.1)).symm⟩
      rw [hgood, hn]
      unfold hostCommit
      by_cases hcommit : port.host_owner_commit (s.tasks t).owner = false
      · simp only [if_pos hcommit]
        exact Or.inl
          (fault_returnNative (s := { s.corrupt with current := none }) (fault_corrupt s) port)
      · simp only [if_neg hcommit]
        exact Or.inr ⟨rfl, rfl, rfl⟩

theorem snapshotRestore_frame (cfg : Config) (s : State) (t : ℕ) :
    (s.snapshotRestore cfg t).1.ready = s.ready ∧
      ∀ v, ((s.snapshotRestore cfg t).1.tasks v).charge = (s.tasks v).charge := by
  unfold snapshotRestore
  split
  · exact ⟨rfl, fun _ => rfl⟩
  · dsimp only
    split
    · exact ⟨rfl, fun _ => rfl⟩
    · split
      · exact ⟨rfl, fun _ => rfl⟩
      · split
        · exact ⟨rfl, fun _ => rfl⟩
        · refine ⟨rfl, fun v => ?_⟩
          show ((Function.update s.tasks t { s.tasks t with record := none }) v).charge = _
          by_cases hv : v = t
          · rw [hv, Function.update_self]
            rfl
          · rw [Function.update_of_ne hv]

theorem portPrepare_frame (cfg : Config) (s : State) :
    (s.portPrepare cfg).1.ready = s.ready ∧ (s.portPrepare cfg).1.tasks = s.tasks := by
  unfold portPrepare
  split <;> exact ⟨rfl, rfl⟩

/-- The task that was selected is started, or a fault is latched. -/
theorem switchTo_cases (cfg : Config) (port : Port) (s : State) (t : ℕ) :
    (s.switchTo cfg port t).1.fault ≠ .ok ∨
      Started cfg s (s.switchTo cfg port t).1 t ∧ (s.switchTo cfg port t).1.ready = s.ready := by
  by_cases hold : (s.tasks t).state = .old
  · obtain ⟨hready, hcharge⟩ := snapshotRestore_frame cfg s t
    rw [switchTo_old hold]
    generalize (s.snapshotRestore cfg t).1 = u at hready hcharge
    rcases enterTask_cases cfg port u t (s.snapshotRestore cfg t).2 with
      hfault | ⟨hcurrent, hready', htasks⟩
    · exact Or.inl hfault
    · refine Or.inr ⟨⟨hcurrent, ?_, ?_, fun v hv => ?_⟩, hready'.trans hready⟩
      · rw [htasks, Function.update_self]
      · rw [htasks, Function.update_self, if_pos hold]
        have hquantum := quantum_of_charge (hcharge t)
        exact hquantum
      · rw [htasks, Function.update_of_ne hv]
        exact hcharge v
  · have heq : s.switchTo cfg port t = enterTask cfg port
        ((s.modify t fun task => { task with quantum_left := cfg.slice_ticks }).portPrepare cfg).1 t
        ((s.modify t fun task => { task with quantum_left := cfg.slice_ticks }).portPrepare
          cfg).2 := by
      unfold switchTo
      rw [if_neg hold]
      rfl
    set s₁ := s.modify t fun task => { task with quantum_left := cfg.slice_ticks }
    obtain ⟨hready, htasks⟩ := portPrepare_frame cfg s₁
    rw [heq]
    generalize (s₁.portPrepare cfg).1 = u at hready htasks
    rcases enterTask_cases cfg port u t (s₁.portPrepare cfg).2 with
      hfault | ⟨hcurrent, hready', htasks'⟩
    · exact Or.inl hfault
    · have hself : s₁.tasks t = { s.tasks t with quantum_left := cfg.slice_ticks } :=
        modify_tasks_self _ _ _
      refine Or.inr ⟨⟨hcurrent, ?_, ?_, fun v hv => ?_⟩, hready'.trans hready⟩
      · rw [htasks', Function.update_self]
      · rw [htasks', Function.update_self, if_neg hold, htasks, hself]
      · rw [htasks', Function.update_of_ne hv, htasks]
        exact congrArg Task.charge (modify_tasks_of_ne _ _ hv)

/-! ## Selection -/

variable (port) in
theorem Joint.switchLoop_cons (h : s.Joint cfg (t :: xs) none) (n : ℕ) :
    s.switchLoop cfg port (n + 1) = s.popped.switchTo cfg port t := by
  obtain ⟨g, howns, hnot⟩ := (h.queued.waits t List.mem_cons_self).not_passedOver
  have hfind : s.popped.groupFind (s.popped.tasks t).owner = some g :=
    h.resident.groupFind_owner howns
  have hnot : ¬ s.popped.passedOver t g := hnot
  unfold State.switchLoop
  rw [h.readyPop]
  simp only [hfind, if_neg hnot]

/-- The tasks that sleep may be released, and the queue grows at its end. -/
structure Grows (s s' : State) (xs zs : List ℕ) : Prop where
  holds : s'.ready.Holds (xs ++ zs)
  current : s'.current = s.current
  kept : ∀ v, (s.tasks v).state ≠ .sleeping → (s'.tasks v).charge = (s.tasks v).charge
  states : ∀ v, (s'.tasks v).charge = (s.tasks v).charge ∨ (s'.tasks v).state = .new ∧ s.Visits v

/-- The processor was free, and the head of the queue is started in it. -/
structure Selected (cfg : Config) (s s' : State) (xs ys zs : List ℕ) (t : ℕ) : Prop where
  split : xs ++ zs = t :: ys
  holds : s'.ready.Holds ys
  current : s'.current = some t
  running : (s'.tasks t).state = .running
  visited : (s.tasks t).state = .sleeping → s.Visits t
  quantum : (s'.tasks t).quantum_left =
    if (s.tasks t).state = .old then (s.tasks t).quantum_left else cfg.slice_ticks
  kept : ∀ v, v ≠ t → (s.tasks v).state ≠ .sleeping → (s'.tasks v).charge = (s.tasks v).charge
  states : ∀ v, v ≠ t → (s'.tasks v).charge = (s.tasks v).charge ∨ (s'.tasks v).state = .new

/-- Releases make the queue grow. -/
theorem Joint.grows (h : s.Joint cfg xs none) :
    ∃ zs, s.activateDue.Joint cfg (xs ++ zs) none ∧ Grows s s.activateDue xs zs := by
  obtain ⟨zs, hjoint, hact⟩ := h.activateDue
  refine ⟨zs, hjoint, hjoint.queued.holds, by rw [hact.eq], fun v hv => by rw [hact.kept v hv],
    fun v => ?_⟩
  rw [h.activateDue_tasks v]
  unfold released
  dsimp only
  split
  · next hvisits =>
    split
    · exact Or.inr ⟨rfl, hvisits⟩
    · exact Or.inl rfl
  · exact Or.inl rfl

/-- **The second half of a switch** starts the head of the queue, behind the releases, or
goes back to native code; with a request for that it does so at once. -/
theorem Joint.switchIn_cases (h : s.Joint cfg xs none) (port : Port)
    (hok : (s.switchIn cfg port).1.fault = .ok) :
    (∃ zs, Grows s (s.switchIn cfg port).1 xs zs ∧ (s.native_pending = true → zs = [])) ∨
      s.native_pending = false ∧ ∃ ys zs t, Selected cfg s (s.switchIn cfg port).1 xs ys zs t := by
  have hnative : Grows s (s.returnNative port).1 xs [] := by
    rw [returnNative_eq]
    refine ⟨?_, ?_, fun v _ => ?_, fun v => Or.inl ?_⟩
    · rw [List.append_nil]
      split <;> exact h.queued.holds
    all_goals split <;> rfl
  unfold State.switchIn at hok ⊢
  split at hok
  · next hready =>
    rw [if_pos hready]
    exact Or.inl ⟨[], hnative, fun _ => rfl⟩
  next hready =>
  rw [if_neg hready]
  split at hok
  · next hpending =>
    rw [if_pos hpending]
    exact Or.inl ⟨[], hnative, fun _ => rfl⟩
  next hpending =>
  rw [if_neg hpending]
  dsimp only at hok ⊢
  obtain ⟨zs, hjoint, hgrows⟩ := h.grows
  have hreap := hjoint.recordsReap
  have heq := recordsReap_eq hjoint.ring
  split at hok
  · next hfault => exact absurd hok (fault_returnNative hfault port)
  next hfault =>
  rw [if_neg hfault]
  generalize s.activateDue = u at hjoint hgrows hreap heq hok
  have hgrows' : Grows s (u.recordsReap cfg) xs zs := by
    rw [heq]
    exact ⟨hgrows.holds, hgrows.current, hgrows.kept, hgrows.states⟩
  generalize u.recordsReap cfg = u' at hreap hgrows' hok
  cases hqueue : xs ++ zs with
  | nil =>
    have hloop : (u'.switchLoop cfg port (cfg.max_tasks + 1)) = u'.returnNative port := by
      rw [hqueue] at hreap
      unfold State.switchLoop
      rw [readyPop_nil hreap]
    rw [hloop, returnNative_eq]
    refine Or.inl ⟨zs, ⟨?_, ?_, fun v hv => ?_, fun v => ?_⟩, fun hp => absurd hp hpending⟩
    · split <;> exact hgrows'.holds
    · split <;> exact hgrows'.current
    · split <;> exact hgrows'.kept v hv
    · split <;> exact hgrows'.states v
  | cons t ys =>
    rw [hqueue] at hreap
    rw [hreap.switchLoop_cons port cfg.max_tasks] at hok ⊢
    rcases switchTo_cases cfg port u'.popped t with hbad | ⟨hstarted, hready'⟩
    · exact absurd hok hbad
    · have hsleep : (s.tasks t).state = .old ↔ (u'.tasks t).state = .old := by
        by_cases hv : (s.tasks t).state = .sleeping
        · rcases hgrows'.states t with hsame | hnew
          · rw [state_of_charge hsame]
          · rw [hnew.1, hv]
            exact ⟨(by simp), (by simp)⟩
        · rw [state_of_charge (hgrows'.kept t hv)]
      refine Or.inr ⟨Bool.eq_false_iff.mpr hpending, ys, zs, t, hqueue, ?_, hstarted.current,
        hstarted.running, fun hv => ?_, ?_, fun v hvt hv => ?_, fun v hvt => ?_⟩
      · rw [hready']
        exact hreap.queued.holds.pop.2
      · rcases hgrows'.states t with hsame | ⟨-, hvisits⟩
        · have hstate := (hreap.queued.waits t List.mem_cons_self).state
          rw [state_of_charge hsame, hv] at hstate
          rcases hstate with hstate | hstate <;> cases hstate
        · exact hvisits
      · rw [hstarted.quantum]
        show (if (u'.tasks t).state = .old then (u'.tasks t).quantum_left else cfg.slice_ticks) = _
        by_cases hold : (s.tasks t).state = .old
        · rw [if_pos hold, if_pos (hsleep.mp hold)]
          exact quantum_of_charge (hgrows'.kept t (by rw [hold]; simp))
        · rw [if_neg hold, if_neg fun hold' => hold (hsleep.mpr hold')]
      · exact (hstarted.others v hvt).trans (hgrows'.kept v hv)
      · rcases hgrows'.states v with hsame | hnew
        · exact Or.inl ((hstarted.others v hvt).trans hsame)
        · exact Or.inr ((state_of_charge (hstarted.others v hvt)).trans hnew.1)

/-- Cancelling a group of which nothing waits. -/
theorem Joint.charge_groupCancel (h : s.Joint cfg xs out) (hg : g ∈ s.group_list)
    (hstate : .revoking ≤ (s.groups g).state) (v : ℕ) :
    ((s.groupCancel cfg g).tasks v).charge = (s.tasks v).charge := by
  obtain ⟨-, -, htasks⟩ := h.readyRemove (s.groups g).handle true
  have hfilter := h.filter_revoking hg hstate
  have hnot : ¬ (v ∈ xs ∧ s.removable (s.groups g).handle true v = true) := by
    rintro ⟨hv, hremovable⟩
    rw [← hfilter] at hv
    simp [hremovable] at hv
  have hkept : (s.readyRemove cfg (s.groups g).handle true).tasks v = s.tasks v := by
    rw [htasks, if_neg hnot]
  rw [charge_cancel, hkept]

/-- **The next callback** is the head of the queue. -/
theorem Joint.inlineNext_cases (h : s.Joint cfg xs none) (port : Port) (t : ℕ) (hok : s.fault = .ok)
    (hidle : ∀ u, s.current = some u → (s.tasks u).state ≠ .running) (hg : g ∈ s.group_list) :
    (s.inlineNext cfg port t (some g)).fault ≠ .ok ∨ s.inlineNext cfg port t (some g) = s ∨
      ∃ ys f, Selected cfg s (s.inlineNext cfg port t (some g)) xs ys [] f := by
  unfold State.inlineNext
  cases hhead : s.inlineHead port t with
  | none => exact Or.inr (Or.inl rfl)
  | some f =>
    obtain ⟨hfirst, hnew, k, hfind, henabled⟩ := inlineHead_eq_some hhead
    dsimp only
    by_cases hcommit : port.host_owner_commit (s.tasks f).owner = false
    · have hhost : s.hostCommit port (s.tasks f).owner = (s.corrupt, false) := if_pos hcommit
      rw [hhost]
      exact Or.inl (fault_corrupt s)
    · have hhost : s.hostCommit port (s.tasks f).owner = (s, true) := if_neg hcommit
      obtain ⟨zs, rfl⟩ : ∃ zs, xs = f :: zs := by
        have hhead := h.queued.holds.first.symm.trans hfirst
        cases xs with
        | nil => exact nomatch hhead
        | cons x xs => exact ⟨xs, congrArg (· :: xs) (Option.some.inj hhead)⟩
      rw [hhost]
      simp only [h.readyPop]
      refine Or.inr (Or.inr ⟨zs, f, ?_⟩)
      change Selected cfg s (if ((s.startInline cfg f).groups g).state = GroupState.revoking then
        (s.startInline cfg f).groupCancel cfg g else s.startInline cfg f) (f :: zs) zs [] f
      have hstart := h.startInline hok hidle hnew hfind henabled
      have hself : (s.startInline cfg f).tasks f =
          { s.tasks f with quantum_left := cfg.slice_ticks, state := .running } :=
            modify_tasks_self _ _ _
      have hother {v : ℕ} (hv : v ≠ f) : (s.startInline cfg f).tasks v = s.tasks v :=
        modify_tasks_of_ne _ _ hv
      have hselected : Selected cfg s (s.startInline cfg f) (f :: zs) zs [] f := by
        refine ⟨List.append_nil _, hstart.queued.holds, rfl, ?_, fun hv => ?_, ?_, fun v hv _ => ?_,
          fun v hv => Or.inl ?_⟩
        · rw [hself]
        · exact nomatch hnew.symm.trans hv
        · rw [hself, if_neg (by rw [hnew]; exact nofun)]
        · rw [hother hv]
        · rw [hother hv]
      split
      · next hrevoking =>
        have hstate : .revoking ≤ ((s.startInline cfg f).groups g).state := by
          rw [hrevoking]
          exact Nat.le_refl _
        have hcharge := hstart.charge_groupCancel hg hstate
        have hcancel := hstart.groupCancel hg
        rw [hstart.filter_revoking hg hstate] at hcancel
        refine ⟨hselected.split, hcancel.queued.holds, ?_, ?_, hselected.visited, ?_,
          fun v hv hstate => ?_, fun v hv => ?_⟩
        · rw [(cancelled hstart.ring g).eq]
          rfl
        · rw [state_of_charge (hcharge f)]
          exact hselected.running
        · rw [quantum_of_charge (hcharge f)]
          exact hselected.quantum
        · exact (hcharge v).trans (hselected.kept v hv hstate)
        · rw [hcharge v, state_of_charge (hcharge v)]
          exact hselected.states v hv
      · exact hselected

/-! ## Departure -/

/-- The task that is preempted keeps its turn: it gave way to native work, and its slice is
not used up. -/
def KeepsTurn (s : State) (t : ℕ) : Prop :=
  let elapsed := s.tick_now - s.slice_start
  s.native_pending = true ∧ (if elapsed ≠ 0 then elapsed else 1) < (s.tasks t).quantum_left

instance (s : State) (t : ℕ) : Decidable (s.KeepsTurn t) := inferInstanceAs (Decidable (_ ∧ _))

/-- What is left of the slice of a task that keeps its turn. -/
theorem KeepsTurn.quantum (h : s.KeepsTurn t) : ∃ charged,
    charged = (if s.tick_now - s.slice_start ≠ 0 then s.tick_now - s.slice_start else 1) ∧
      0 < ((s.tasks t).quantum_left - charged).toNat ∧
      ((s.tasks t).quantum_left - charged).toNat < (s.tasks t).quantum_left.toNat := by
  refine ⟨_, rfl, ?_⟩
  have hlt : (if s.tick_now - s.slice_start ≠ 0 then s.tick_now - s.slice_start else 1) <
      (s.tasks t).quantum_left := h.2
  set charged := if s.tick_now - s.slice_start ≠ 0 then s.tick_now - s.slice_start
    else 1 with hcharged
  have hpos : 0 < charged.toNat := by
    rw [hcharged]
    split
    · next hne => exact Nat.pos_of_ne_zero fun hzero => hne (UInt32.toNat_inj.mp hzero)
    · decide
  rw [UInt32.lt_iff_toNat_lt] at hlt
  rw [UInt32.toNat_sub_of_le _ _ (UInt32.le_iff_toNat_le.mpr (Nat.le_of_lt hlt))]
  omega

/-- Where the task that ran has gone: off the processor, to the front of the queue, or to its
end. -/
inductive Departed (cfg : Config) (s s' : State) (xs : List ℕ) : List ℕ → Prop
  | leave (absent : ∀ t, s.runningTask = some t → (s'.tasks t).state = .sleeping ∧ ¬ s'.Visits t)
      (waiting : ∀ v ∈ xs, (s'.tasks v).charge = (s.tasks v).charge)
      (held : ∀ v, s'.Held v → (s'.tasks v).charge = (s.tasks v).charge) : Departed cfg s s' xs xs
  | front (t : ℕ) (running : s.runningTask = some t) (keeps : s.KeepsTurn t) (absent : t ∉ xs)
      (old : (s'.tasks t).state = .old)
      (less : (s'.tasks t).quantum_left.toNat < (s.tasks t).quantum_left.toNat)
      (pos : 0 < (s'.tasks t).quantum_left.toNat)
      (others : ∀ v, v ≠ t → (s'.tasks v).charge = (s.tasks v).charge) :
        Departed cfg s s' xs (t :: xs)
  | rotate (t : ℕ) (running : s.runningTask = some t) (turn : ¬ s.KeepsTurn t) (absent : t ∉ xs)
      (old : (s'.tasks t).state = .old) (quantum : (s'.tasks t).quantum_left = cfg.slice_ticks)
      (others : ∀ v, v ≠ t → (s'.tasks v).charge = (s.tasks v).charge) :
      Departed cfg s s' xs (xs ++ [t])

/-- The task joins the queue at its front. -/
theorem requeue_front (hflag : ¬ s.ready.linked t = true) {elapsed : UInt32}
    (hkeeps : s.native_pending = true ∧
      (if elapsed ≠ 0 then elapsed else 1) < (s.tasks t).quantum_left) (cfg : Config) :
    s.requeue cfg t elapsed = { s.modify t (fun task =>
      { task with
        state := .old
        quantum_left := task.quantum_left - (if elapsed ≠ 0 then elapsed else 1) }) with
      ready := s.ready.pushFront t, ready_count := s.ready_count + 1, current := none } := by
  set s₁ := s.modify t fun task => { task with state := .old }
  have hkeeps' : s₁.native_pending = true ∧
      (if elapsed ≠ 0 then elapsed else 1) < (s₁.tasks t).quantum_left := by
    rw [modify_tasks_self]
    exact hkeeps
  unfold requeue
  dsimp only
  rw [if_pos hkeeps']
  have hpush (f : Task → Task) : (s.modify t f).readyPushFront t =
      { s.modify t f with ready := s.ready.pushFront t, ready_count := s.ready_count + 1 } :=
    if_neg hflag
  rw [modify_modify, hpush]

/-- The task joins the queue at its end. -/
theorem requeue_back (hflag : ¬ s.ready.linked t = true) {elapsed : UInt32}
    (hturn : ¬ (s.native_pending = true ∧
      (if elapsed ≠ 0 then elapsed else 1) < (s.tasks t).quantum_left)) (cfg : Config) :
    s.requeue cfg t elapsed = { s.modify t (fun task =>
      { task with state := .old, quantum_left := cfg.slice_ticks }) with
      ready := s.ready.enqueue t, ready_count := s.ready_count + 1, current := none } := by
  set s₁ := s.modify t fun task => { task with state := .old }
  have hturn' : ¬ (s₁.native_pending = true ∧
      (if elapsed ≠ 0 then elapsed else 1) < (s₁.tasks t).quantum_left) := by
    rw [modify_tasks_self]
    exact hturn
  unfold requeue
  dsimp only
  rw [if_neg hturn']
  have hpush (f : Task → Task) : (s.modify t f).readyPush t =
      { s.modify t f with ready := s.ready.enqueue t, ready_count := s.ready_count + 1 } :=
    if_neg hflag
  rw [modify_modify, hpush]

/-- A task that runs does not wait. -/
theorem Joint.running_notMem (h : s.Joint cfg xs none) (hrunning : (s.tasks t).state = .running) :
    t ∉ xs := by
  intro ht
  have hstate := (h.queued.waits t ht).state
  rw [hrunning] at hstate
  rcases hstate with hstate | hstate <;> exact nomatch hstate

/-- The task that runs is saved and joins the queue again, or the switch is over. -/
theorem Joint.switchOut_running (h : s.Joint cfg xs none) (hok : s.fault = .ok)
    (hcurrent : s.current = some t) (hfind : s.groupFind (s.tasks t).owner = some g)
    (hmay : ¬ .revoking ≤ (s.groups g).state) (hrunning : (s.tasks t).state = .running)
    (port : Port)
    (p_saved_sp : Option ℕ) :
    (∃ result, s.switchOut cfg port p_saved_sp = .error result ∧
      (result.1.fault ≠ .ok ∨ ∃ ring, result.1 = { s with ring := ring })) ∨
    ∃ ring record, s.switchOut cfg port p_saved_sp = .ok (requeue cfg
      (modify { s with ring := ring } t fun task => { task with record := some record }) t
      (s.tick_now - s.slice_start)) := by
  generalize hresult : s.switchOut cfg port p_saved_sp = result
  unfold State.switchOut at hresult
  simp only [hcurrent, hfind, if_neg hmay, if_pos hrunning] at hresult
  rcases frameWords_cases cfg s p_saved_sp with ⟨hbad, -⟩ | ⟨sp, rfl, hframe, hgood⟩
  · simp only [hbad] at hresult
    exact Or.inl ⟨_, hresult.symm, Or.inl
      (fault_returnNative (s := { s.corrupt with current := none }) (fault_corrupt s) port)⟩
  · obtain ⟨n, hn⟩ : ∃ n, cfg.stack_words - sp = n + 1 := ⟨_, (Nat.succ_pred_eq_of_pos
      (Nat.sub_pos_of_lt hframe.2.1)).symm⟩
    rw [hgood, hn] at hresult
    rcases snapshotSave_cases h.ring hok t sp (n + 1) with ⟨-, hfull⟩ | ⟨offset, gap, -, hsave⟩
    · simp only [hfull, if_neg (not_not_intro hok)] at hresult
      exact Or.inl ⟨_, hresult.symm, Or.inr ⟨_, rfl⟩⟩
    · simp only [hsave] at hresult
      exact Or.inr ⟨_, _, hresult.symm⟩

/-- What the first half of a switch does to the queue: the processor is free, or the task goes
on with no room for its snapshot, or a fault is latched. -/
def Clears (cfg : Config) (s : State) (xs : List ℕ) : Except (State × Option ℕ) State → Prop
  | .ok s' => ∃ ys, s'.Joint cfg ys none ∧ s'.current = none ∧
      s'.native_pending = s.native_pending ∧ Departed cfg s s' xs ys
  | .error result => result.1.fault ≠ .ok ∨ ∃ ring, result.1 = { s with ring := ring }

theorem runningTask_of_current (hcurrent : s.current = some t) {v : ℕ}
    (hv : s.runningTask = some v) : v = t ∧ (s.tasks t).state = .running := by
  obtain ⟨hv, hrunning⟩ := runningTask_eq_some.mp hv
  obtain rfl := Option.some.inj (hcurrent.symm.trans hv)
  exact ⟨rfl, hrunning⟩

/-- The group of the current task is being revoked: its tasks leave the queue. -/
theorem Joint.clears_revoking (h : s.Joint cfg xs none) (hok : s.fault = .ok)
    (hcurrent : s.current = some t) (howns : s.Owns g t) (hmay : .revoking ≤ (s.groups g).state)
    (port : Port) (p_saved_sp : Option ℕ) :
    Clears cfg s xs (s.switchOut cfg port p_saved_sp) := by
  unfold State.switchOut
  simp only [hcurrent, h.resident.groupFind_owner howns, if_pos hmay]
  obtain ⟨hnot, hleave⟩ := h.leave_revoking hok hcurrent howns hmay
  have hcancel := hleave.groupCancel (g := g) howns.1
  rw [hleave.filter_revoking howns.1 hmay] at hcancel
  have hframe := cancelled hleave.ring g
  have hcharge := hleave.charge_groupCancel howns.1 hmay
  have hself : (s.modify t fun task => { task with state := .sleeping }).tasks t =
      { s.tasks t with state := .sleeping } := modify_tasks_self _ _ _
  have hother {v : ℕ} (hv : v ≠ t) :
      (s.modify t fun task => { task with state := .sleeping }).tasks v = s.tasks v :=
    modify_tasks_of_ne _ _ hv
  refine ⟨xs, hcancel, ?_, ?_, .leave (fun v hv => ?_) (fun v hv => ?_) fun v hv => ?_⟩
  · rw [hframe.eq]
  · rw [hframe.eq]
    rfl
  · obtain ⟨rfl, -⟩ := runningTask_of_current hcurrent hv
    refine ⟨(state_of_charge (hcharge v)).trans (congrArg Task.state hself), ?_⟩
    rintro ⟨k, hk, henabled, htasks⟩
    have hk : k ∈ s.group_list := by
      rw [hframe.eq] at hk
      exact hk
    rcases hframe.groups k with hsame | hclosed
    · rw [hsame] at henabled htasks
      have henabled : (s.groups k).state = .enabled := henabled
      rw [h.resident.owns_unique ⟨hk, htasks⟩ howns] at henabled
      rw [henabled] at hmay
      exact absurd hmay (by decide)
    · rw [hclosed] at henabled
      exact nomatch henabled
  · have hne : v ≠ t := fun heq => hnot (heq ▸ hv)
    exact (hcharge v).trans (congrArg Task.charge (hother hne))
  · by_cases hvt : v = t
    · subst hvt
      rw [held_of_charge (hcharge v)] at hv
      rcases hv with hv | hv <;> exact nomatch (congrArg Task.state hself).symm.trans hv
    · exact (hcharge v).trans (congrArg Task.charge (hother hvt))

section Requeue
variable {base : State} {record : Option ℕ} {ys : List ℕ}
variable (hbase : base.tasks t = { s.tasks t with record := record })
  (hother : ∀ v, v ≠ t → base.tasks v = s.tasks v) (hready : base.ready = s.ready)
  (hpending : base.native_pending = s.native_pending)
include hbase hother hready hpending

/-- The task that ran keeps its turn. -/
theorem Joint.clears_front (h : s.Joint cfg xs none) (hcurrent : s.current = some t)
    (hrunning : (s.tasks t).state = .running) (hkeeps : s.KeepsTurn t)
    (hjoint : (base.requeue cfg t (s.tick_now - s.slice_start)).Joint cfg ys none) :
    Clears cfg s xs (.ok (base.requeue cfg t (s.tick_now - s.slice_start))) := by
  have hnot := h.running_notMem hrunning
  have hflag : ¬ base.ready.linked t = true :=
    fun hflag => hnot ((h.queued.holds.linked t).mp (hready ▸ hflag))
  have hkeeps' : base.native_pending = true ∧
      (if s.tick_now - s.slice_start ≠ 0 then s.tick_now - s.slice_start else 1) <
        (base.tasks t).quantum_left := by
    rw [hbase, hpending]
    exact hkeeps
  have heq := requeue_front hflag hkeeps' cfg
  obtain ⟨charged, hcharged, hpos, hless⟩ := hkeeps.quantum
  rw [← hcharged] at heq
  rw [heq] at hjoint ⊢
  obtain rfl : ys = t :: xs := by
    refine hjoint.queued.holds.unique ?_
    rw [hready]
    exact h.queued.holds.pushFront hnot
  have hself : (base.modify t fun task => { task with
      state := .old, quantum_left := task.quantum_left - charged }).tasks t =
      { base.tasks t with state := .old, quantum_left := (base.tasks t).quantum_left - charged } :=
    modify_tasks_self _ _ _
  rw [hbase] at hself
  refine ⟨t :: xs, hjoint, rfl, hpending,
    .front t (runningTask_eq_some.mpr ⟨hcurrent, hrunning⟩) hkeeps hnot ?_ ?_ ?_ fun v hv => ?_⟩
  · exact congrArg Task.state hself
  · exact lt_of_eq_of_lt (congrArg (fun task => task.quantum_left.toNat) hself) hless
  · exact lt_of_lt_of_eq hpos (congrArg (fun task => task.quantum_left.toNat) hself).symm
  · exact congrArg Task.charge ((Function.update_of_ne hv _ _).trans (hother v hv))

/-- The task that ran joins the end of the queue with a new slice. -/
theorem Joint.clears_back (h : s.Joint cfg xs none) (hcurrent : s.current = some t)
    (hrunning : (s.tasks t).state = .running) (hyields : ¬ s.KeepsTurn t)
    (hjoint : (base.requeue cfg t (s.tick_now - s.slice_start)).Joint cfg ys none) :
    Clears cfg s xs (.ok (base.requeue cfg t (s.tick_now - s.slice_start))) := by
  have hnot := h.running_notMem hrunning
  have hflag : ¬ base.ready.linked t = true :=
    fun hflag => hnot ((h.queued.holds.linked t).mp (hready ▸ hflag))
  have hyields' : ¬ (base.native_pending = true ∧
      (if s.tick_now - s.slice_start ≠ 0 then s.tick_now - s.slice_start else 1) <
        (base.tasks t).quantum_left) := by
    rw [hbase, hpending]
    exact hyields
  rw [requeue_back hflag hyields' cfg] at hjoint ⊢
  obtain rfl : ys = xs ++ [t] := by
    refine hjoint.queued.holds.unique ?_
    rw [hready]
    exact h.queued.holds.enqueue hnot
  have hself : (base.modify t fun task => { task with
      state := .old, quantum_left := cfg.slice_ticks }).tasks t =
      { base.tasks t with state := .old, quantum_left := cfg.slice_ticks } :=
    modify_tasks_self _ _ _
  refine ⟨xs ++ [t], hjoint, rfl, hpending,
    .rotate t (runningTask_eq_some.mpr ⟨hcurrent, hrunning⟩) hyields hnot ?_ ?_ fun v hv => ?_⟩
  · exact congrArg Task.state hself
  · exact congrArg Task.quantum_left hself
  · exact congrArg Task.charge ((Function.update_of_ne hv _ _).trans (hother v hv))

end Requeue

/-- **The first half of a switch.** -/
theorem Joint.clears (h : s.Joint cfg xs none) (hok : s.fault = .ok) (port : Port)
    (p_saved_sp : Option ℕ) : Clears cfg s xs (s.switchOut cfg port p_saved_sp) := by
  have hout := h.switchOut hok port p_saved_sp
  cases hcurrent : s.current with
  | none =>
    have heq : s.switchOut cfg port p_saved_sp = .ok s := by
      unfold State.switchOut
      rw [hcurrent]
    have hidle : s.runningTask = none := by
      unfold runningTask
      rw [hcurrent]
      rfl
    rw [heq]
    exact ⟨xs, h, hcurrent, rfl, .leave (fun t ht => nomatch hidle.symm.trans ht) (fun _ _ => rfl)
      fun _ _ => rfl⟩
  | some t =>
    obtain ⟨g, howns, -⟩ := h.placed.current t hcurrent
    have hfind : s.groupFind (s.tasks t).owner = some g := h.resident.groupFind_owner howns
    by_cases hmay : .revoking ≤ (s.groups g).state
    · exact h.clears_revoking hok hcurrent howns hmay port p_saved_sp
    by_cases hrunning : (s.tasks t).state = .running
    · rcases h.switchOut_running hok hcurrent hfind hmay hrunning port p_saved_sp with
        ⟨result, heq, hover⟩ | ⟨ring, record, heq⟩
      · rw [heq]
        exact hover
      · rw [heq] at hout ⊢
        obtain ⟨ys, hturn, -, -⟩ := hout
        by_cases hkeeps : s.KeepsTurn t
        · exact h.clears_front (Function.update_self t _ _)
            (fun v hv => Function.update_of_ne hv _ _) rfl rfl hcurrent hrunning hkeeps hturn.joint
        · exact h.clears_back (Function.update_self t _ _)
            (fun v hv => Function.update_of_ne hv _ _) rfl rfl hcurrent hrunning hkeeps hturn.joint
    · unfold State.switchOut
      simp only [hcurrent, hfind, if_neg hmay, if_neg hrunning]
      refine ⟨xs, h.leave fun _ v hv => ?_, rfl, rfl, .leave (fun v hv => ?_) (fun _ _ => rfl)
        fun _ _ => rfl⟩
      · obtain rfl := Option.some.inj (hcurrent.symm.trans hv)
        exact hrunning
      · exact absurd (runningTask_of_current hcurrent hv).2 hrunning

end State
end Atoman.SectionStl
