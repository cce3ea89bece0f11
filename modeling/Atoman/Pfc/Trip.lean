import Atoman.Pfc.Steps

/-!
# A stop in force

A stop or a trip is heard if it lies in the slot in front of the read of a step, or has been
read by the present one. It can be lost in three ways: it falls between the read and the clear
of the slot; the step decides for `run` after its read, and `run` is entered with the stop in
the slot; a start overwrites it. Without these, no stop is lost.
-/

namespace Atoman.Pfc
open Lib (Transition)

namespace Machine
variable (s : Machine)

/-- `run` is decided, or entered up to the PWM. -/
def GoingToRun : Prop :=
  s.fsm_sta = .mainRly ∧ s.fsm_ev = .toRun ∨
    s.fsm_sta = .run ∧ (s.fsm_sta_is_change = true ∨ .pwmEnable ∈ s.pc.entry)

/-- The stop is in the slot or taken. -/
def Heard : Prop :=
  s.fsm_ev = .toIdle ∨ s.pc = .clear .stop ∨ s.pc = .decide .stop ∨
    s.fsm_cmd = .stop ∧ ∀ temp, s.pc ≠ .clear temp

/-- The present step takes the stop. -/
def Obeyed : Prop :=
  s.fsm_ev = .toIdle ∨ s.pc = .clear .stop ∨ s.pc = .decide .stop ∨
    s.fsm_cmd = .stop ∧ (s.pc = .exe ∨ ∃ actions, s.pc = .entering actions)

/-- A stop is not stored after a read and in front of its clear, nor on the way to `run`. -/
def TakesStop : Prop :=
  s.fsm_sta.Active → ¬s.GoingToRun ∧ ∀ temp, s.pc = .clear temp → temp = .stop

/-- Which steps lose no stop. -/
def Meets (hal : Hal) (s : Machine) : Event → Prop
  | .step i => ∀ temp, s.pc = .decide temp → s.fsm_sta = .mainRly → s.event hal i temp = .toRun →
      s.fsm_cmd ≠ .stop
  | .setCmd true => s.fsm_sta = .softStart ∨ s.fsm_sta = .mainRly → s.fsm_cmd = .stop →
      s.fsm_ev = .toIdle ∨ s.pc = .clear .stop ∨ s.pc = .decide .stop
  | .setCmd false => s.TakesStop
  | .trip => True
  | .tripStop => 0 < s.tripping → s.TakesStop

end Machine

variable {hal : Hal} {s : Machine}

/-! ## What a stop in force says -/

/-- What a stop in force, the command `n`, has to say about the machine. -/
structure Guarded (hal : Hal) (s : Machine) (n : ℕ) : Prop where
  issued : n < s.watch.issued
  slot : s.fsm_cmd = .start → n < s.watch.slot
  ready : hal.isReady = true
  ne_init : s.fsm_sta ≠ .init
  idle : s.fsm_sta = .idle → s.fsm_ev ≠ .toSoftStart ∧ s.pc ≠ .clear .start ∧
    s.pc ≠ .decide .start ∧ ∀ actions, s.pc ≠ .starting actions
  run : ¬s.GoingToRun
  heard : s.fsm_sta = .softStart ∨ s.fsm_sta = .mainRly → s.Heard

theorem act_broken (action : Action) :
    (s.act action).watch.broken = true →
      s.watch.broken = true ∨ s.watch.stopped.isSome = true ∧
        (action = .pwmEnable ∨ action = .publishBuilding ∧ s.building_run_allowed = true) := by
  cases action <;> simp +contextual [Machine.act, Machine.release]
  split <;> simp_all

/-- The places at which no command is held and nothing is published in front of an event. -/
def Pc.quiet : Pc → Bool
  | .clear _ | .decide _ | .starting _ => false
  | _ => true

namespace Machine.Heard

/-- Away from the command that was read, a stop is heard in the event or in the slot. -/
theorem of_quiet (h : s.Heard) (hpc : s.pc.quiet = true) :
    s.fsm_ev = .toIdle ∨ s.fsm_cmd = .stop := by
  rcases h with hev | hclear | hdecide | ⟨hcmd, -⟩
  · exact .inl hev
  · simp [hclear, Pc.quiet] at hpc
  · simp [hdecide, Pc.quiet] at hpc
  · exact .inr hcmd

theorem intro (h : s.fsm_ev = .toIdle ∨ s.fsm_cmd = .stop) (hpc : ∀ temp, s.pc ≠ .clear temp) :
    s.Heard :=
  h.imp_right fun hcmd => .inr (.inr ⟨hcmd, hpc⟩)

/-- The task goes on from one quiet place to another. -/
theorem frame (h : s.Heard) {t : Machine} (hev : t.fsm_ev = s.fsm_ev) (hcmd : t.fsm_cmd = s.fsm_cmd)
    (hpc : s.pc.quiet = true) (hpc' : t.pc.quiet = true) : t.Heard := by
  refine .intro ?_ fun temp hclear => by simp [hclear, Pc.quiet] at hpc'
  rw [hev, hcmd]
  exact h.of_quiet hpc

/-- In front of the read. -/
theorem read (h : s.Heard) (hpc : s.pc = .exe) {t : Machine} (hev : t.fsm_ev = s.fsm_ev)
    (hpc' : t.pc = .clear s.fsm_cmd) : t.Heard := by
  rcases h.of_quiet (by simp [hpc, Pc.quiet]) with hidle | hstop
  · exact .inl (hev.trans hidle)
  · exact .inr (.inl (hpc'.trans (by rw [hstop])))

/-- Between the read and the clear. -/
theorem cleared (h : s.Heard) {temp : Cmd} (hpc : s.pc = .clear temp) {t : Machine}
    (hev : t.fsm_ev = s.fsm_ev) (hpc' : t.pc = .decide temp) : t.Heard := by
  rcases h with hidle | hclear | hdecide | ⟨-, hne⟩
  · exact .inl (hev.trans hidle)
  · obtain rfl : temp = .stop := Pc.clear.inj (hpc.symm.trans hclear)
    exact .inr (.inr (.inl hpc'))
  · cases hpc.symm.trans hdecide
  · exact absurd hpc (hne temp)

/-- In front of the decision. -/
theorem of_decide (h : s.Heard) {temp : Cmd} (hpc : s.pc = .decide temp)
    (hnull : s.fsm_ev = .null) :
    temp = .stop ∨ s.fsm_cmd = .stop := by
  rcases h with hidle | hclear | hdecide | ⟨hcmd, -⟩
  · cases hnull.symm.trans hidle
  · cases hpc.symm.trans hclear
  · exact .inl (Pc.decide.inj (hpc.symm.trans hdecide))
  · exact .inr hcmd

theorem decided (h : s.Heard) (hin : s.fsm_sta.Active) {temp : Cmd} (hpc : s.pc = .decide temp)
    (hnull : s.fsm_ev = .null) {i : Input} {t : Machine} (hev : t.fsm_ev = s.event hal i temp)
    (hcmd : t.fsm_cmd = s.fsm_cmd) (hpc' : t.pc = .check) : t.Heard := by
  refine .intro ?_ fun temp hclear => by simp [hpc'] at hclear
  rcases h.of_decide hpc hnull with rfl | hstop
  · exact .inl (hev.trans (event_of_stop hal hin i))
  · exact .inr (hcmd.trans hstop)

end Machine.Heard

theorem Machine.GoingToRun.of_frame {t : Machine} (h : t.GoingToRun) (hsta : t.fsm_sta = s.fsm_sta)
    (hev : t.fsm_ev = s.fsm_ev) (hchange : t.fsm_sta_is_change = s.fsm_sta_is_change)
    (hentry : .pwmEnable ∈ t.pc.entry → .pwmEnable ∈ s.pc.entry) : s.GoingToRun := by
  unfold Machine.GoingToRun at h
  rw [hsta, hev, hchange] at h
  exact h.imp_right fun hrun => ⟨hrun.1, hrun.2.imp_right hentry⟩

namespace Guarded
variable {n : ℕ}

/-- The task goes on from one quiet place to another. -/
theorem frame (h : Guarded hal s n) {t : Machine} (hissued : t.watch.issued = s.watch.issued)
    (hslot : t.watch.slot = s.watch.slot) (hsta : t.fsm_sta = s.fsm_sta)
    (hev : t.fsm_ev = s.fsm_ev) (hcmd : t.fsm_cmd = s.fsm_cmd) (hpc : s.pc.quiet = true)
    (hpc' : t.pc.quiet = true) (hrun : t.GoingToRun → s.GoingToRun) : Guarded hal t n where
  issued := hissued ▸ h.issued
  slot := by
    rw [hcmd, hslot]
    exact h.slot
  ready := h.ready
  ne_init := hsta ▸ h.ne_init
  idle := by
    rw [hsta, hev]
    intro hidle
    refine ⟨(h.idle hidle).1, ?_, ?_, ?_⟩
    · intro heq
      simp [heq, Pc.quiet] at hpc'
    · intro heq
      simp [heq, Pc.quiet] at hpc'
    · intro actions heq
      simp [heq, Pc.quiet] at hpc'
  run := fun h' => h.run (hrun h')
  heard := by
    rw [hsta]
    exact fun hin => (h.heard hin).frame hev hcmd hpc hpc'

theorem rest_step (h : Guarded hal s n) (hpc : s.pc = .rest) (i : Input) :
    Guarded hal (s.step hal i) n := by
  have hquiet : s.pc.quiet = true := by simp [hpc, Pc.quiet]
  simp only [Machine.step, hpc]
  split_ifs with hchange
  · refine h.frame rfl rfl rfl rfl rfl hquiet rfl ?_
    rintro (hdecided | ⟨hrun, -⟩)
    · exact .inl hdecided
    · exact .inr ⟨hrun, .inl hchange⟩
  · refine h.frame rfl rfl rfl rfl rfl hquiet rfl fun hrun => ?_
    exact hrun.of_frame rfl rfl rfl fun h => by cases h

theorem exe_step (h : Guarded hal s n) (hn : s.watch.stopped = some n) (hpc : s.pc = .exe)
    {i : Input} (hn' : (s.execute i).watch.stopped = some n) : Guarded hal (s.execute i) n := by
  rcases execute_cases s i with ⟨hinit, -⟩ | ⟨-, soft, rly, stopped, -, htaken, heq⟩
  · exact absurd hinit h.ne_init
  rw [heq] at hn' ⊢
  refine ⟨h.issued, h.slot, h.ready, h.ne_init, fun hidle => ?_, fun hrun => h.run ?_,
    fun hin => (h.heard hin).read hpc rfl rfl⟩
  · refine ⟨(h.idle hidle).1, fun hclear => ?_, by simp, by simp⟩
    -- the start would have ended the stop
    have hcmd : s.fsm_cmd = .start := Pc.clear.inj hclear
    have hnone := htaken hidle hcmd (by simpa [hn] using h.slot hcmd)
    cases hn'.symm.trans hnone
  · exact hrun.of_frame rfl rfl rfl fun h => by cases h

theorem clear_step (h : Guarded hal s n) {temp : Cmd} (hpc : s.pc = .clear temp) (i : Input) :
    Guarded hal (s.step hal i) n := by
  simp only [Machine.step, hpc]
  refine ⟨h.issued, by simp, h.ready, h.ne_init, fun hidle => ?_, fun hrun => h.run ?_,
    fun hin => (h.heard hin).cleared hpc rfl rfl⟩
  · refine ⟨(h.idle hidle).1, by simp, fun hdecide => ?_, by simp⟩
    exact (h.idle hidle).2.1 (hpc.trans (congrArg _ (Pc.decide.inj hdecide)))
  · exact hrun.of_frame rfl rfl rfl fun h => by cases h

/-- The step decides for `run` only if no stop is in the slot. -/
theorem decide_step (h : Guarded hal s n) (hs : Shape hal s) {i : Input}
    (hm : s.Meets hal (.step i)) {temp : Cmd} (hpc : s.pc = .decide temp) :
    Guarded hal (s.step hal i) n := by
  have hnull : s.fsm_ev = .null := hs.at_pc hpc
  simp only [Machine.step, hpc]
  rw [if_neg]
  · refine ⟨h.issued, h.slot, h.ready, h.ne_init, fun _ =>
      ⟨event_ne_toSoftStart hal s i temp, by simp, by simp, by simp⟩, ?_,
      fun hin => (h.heard hin).decided (hin.imp_right .inl) hpc hnull rfl rfl rfl⟩
    rintro (⟨hmain, htoRun⟩ | ⟨hrun, hchange | hpwm⟩)
    · have hmain : s.fsm_sta = .mainRly := hmain
      have htoRun : s.event hal i temp = .toRun := htoRun
      rcases (h.heard (.inr hmain)).of_decide hpc hnull with rfl | hstop
      · have htoIdle : s.event hal i .stop = .toIdle := event_of_stop hal (.inr (.inl hmain)) i
        cases htoIdle.symm.trans htoRun
      · exact hm temp hpc hmain htoRun hstop
    · exact h.run (.inr ⟨hrun, .inl hchange⟩)
    · exact absurd hpwm List.not_mem_nil
  · rintro ⟨hidle, rfl, -⟩
    exact (h.idle hidle).2.2.1 hpc

theorem check_step (h : Guarded hal s n) (hpc : s.pc = .check) (i : Input) :
    Guarded hal (s.step hal i) n := by
  have hquiet : s.pc.quiet = true := by simp [hpc, Pc.quiet]
  simp only [Machine.step, hpc]
  cases hchk : s.fsm_sta.funcChk s.fsm_ev with
  | some next =>
    refine h.frame rfl rfl rfl rfl rfl hquiet rfl fun hrun => ?_
    exact hrun.of_frame rfl rfl rfl fun h => by cases h
  | none =>
    refine ⟨h.issued, h.slot, h.ready, h.ne_init, fun _ =>
      ⟨(fun h => by cases h), (fun h => by cases h), (fun h => by cases h),
        fun _ h => by cases h⟩,
      ?_, fun hin => ?_⟩
    · rintro (⟨-, htoRun⟩ | ⟨hrun, hchange | hpwm⟩)
      · cases htoRun
      · exact h.run (.inr ⟨hrun, .inl hchange⟩)
      · exact absurd hpwm List.not_mem_nil
    · refine .intro (.inr ?_) fun _ h => by cases h
      refine ((h.heard hin).of_quiet hquiet).resolve_left fun hidle => ?_
      have hin : s.fsm_sta = .softStart ∨ s.fsm_sta = .mainRly := hin
      rcases hin with hsta | hsta
      · simp [hsta, hidle, Sta.funcChk] at hchk
      · simp [hsta, hidle, Sta.funcChk] at hchk

/-- The state that is entered is not `run`, nor one behind a start. -/
theorem leave (h : Guarded hal s n) (hs : Shape hal s) {next : Sta}
    (hpc : s.pc = .leaving [] next) (i : Input) : Guarded hal (s.step hal i) n := by
  have hquiet : s.pc.quiet = true := by simp [hpc, Pc.quiet]
  have hnext := funcChk_cases (hs.at_pc hpc).1
  simp only [Machine.step, hpc]
  refine ⟨h.issued, h.slot, h.ready, ?_, fun _ =>
    ⟨(fun h => by cases h), (fun h => by cases h), (fun h => by cases h),
      fun _ h => by cases h⟩,
    ?_, ?_⟩
  · show next ≠ .init
    rcases hnext with ⟨rfl, -⟩ | ⟨-, -, rfl⟩ | ⟨-, -, rfl⟩ | ⟨-, -, rfl⟩ <;> decide
  · rintro (⟨-, htoRun⟩ | ⟨hrun, -⟩)
    · cases htoRun
    · obtain rfl : next = .run := hrun
      rcases hnext with ⟨hne, -⟩ | ⟨-, -, hne⟩ | ⟨-, -, hne⟩ | ⟨hmain, htoRun, -⟩
      · cases hne
      · cases hne
      · cases hne
      · exact h.run (.inl ⟨hmain, htoRun⟩)
  · intro hin
    have hin : next = .softStart ∨ next = .mainRly := hin
    rcases hnext with ⟨rfl, -⟩ | ⟨hidle, hev, -⟩ | ⟨hsoft, hev, -⟩ | ⟨-, -, rfl⟩
    · exact absurd hin (by simp)
    · exact absurd hev (h.idle hidle).1
    · refine .intro (.inr ?_) fun _ h => by cases h
      exact ((h.heard (.inl hsoft)).of_quiet hquiet).resolve_left (by simp [hev])
    · exact absurd hin (by simp)

theorem step (h : Guarded hal s n) (hn : s.watch.stopped = some n)
    (hs : Shape hal s) {i : Input} (hm : s.Meets hal (.step i))
    (hn' : (s.step hal i).watch.stopped = some n) : Guarded hal (s.step hal i) n := by
  cases hpc : s.pc with
  | rest => exact h.rest_step hpc i
  | entering actions =>
    have hquiet : s.pc.quiet = true := by simp [hpc, Pc.quiet]
    simp only [Machine.step, hpc]
    cases actions with
    | nil =>
      refine h.frame rfl rfl rfl rfl rfl hquiet rfl fun hrun => ?_
      exact hrun.of_frame rfl rfl rfl fun h => by cases h
    | cons action actions =>
      refine h.frame (by simp) (by simp) (by simp) (by simp) (by simp) hquiet rfl ?_
      refine fun hrun => hrun.of_frame (by simp) (by simp) (by simp) fun hpwm => ?_
      rw [hpc]
      exact List.mem_cons_of_mem _ hpwm
  | exe =>
    simp only [Machine.step, hpc] at hn' ⊢
    exact h.exe_step hn hpc hn'
  | clear temp => exact h.clear_step hpc i
  | decide temp => exact h.decide_step hs hm hpc
  | starting actions => exact absurd hpc ((h.idle (hs.at_pc hpc).2.1).2.2.2 actions)
  | check => exact h.check_step hpc i
  | leaving actions next =>
    cases actions with
    | nil => exact h.leave hs hpc i
    | cons action actions =>
      have hquiet : s.pc.quiet = true := by simp [hpc, Pc.quiet]
      simp only [Machine.step, hpc]
      exact h.frame (by simp) (by simp) (by simp) (by simp) (by simp) hquiet rfl
        fun hrun => hrun.of_frame (by simp) (by simp) (by simp) fun h => by cases h

theorem setCmd (h : Guarded hal s n) {cmd : Cmd}
    (hcmd : cmd = .stop ∨ (s.fsm_sta = .softStart ∨ s.fsm_sta = .mainRly → s.fsm_cmd = .stop →
      s.fsm_ev = .toIdle ∨ s.pc = .clear .stop ∨ s.pc = .decide .stop))
    (hout : cmd = .stop → ¬s.fsm_sta.Active) : Guarded hal (s.setCmd cmd) n where
  issued := Nat.lt_succ_of_lt h.issued
  slot := fun _ => h.issued
  ready := h.ready
  ne_init := h.ne_init
  idle := h.idle
  run := h.run
  heard := fun hin => by
    have hin : s.fsm_sta = .softStart ∨ s.fsm_sta = .mainRly := hin
    have htaken := hcmd.resolve_left fun hstop => hout hstop (hin.imp_right .inl)
    rcases h.heard hin with hev | hclear | hdecide | ⟨hstop, -⟩
    · exact .inl hev
    · exact .inr (.inl hclear)
    · exact .inr (.inr (.inl hdecide))
    · exact (htaken hin hstop).imp_right (Or.imp_right .inl)

end Guarded

theorem Machine.TakesStop.heard (h : s.TakesStop) (hin : s.fsm_sta.Active) :
    (s.setCmd .stop).Heard := by
  by_cases hpc : s.pc = .clear .stop
  · exact .inr (.inl hpc)
  · refine .inr (.inr (.inr ⟨rfl, fun temp hclear => hpc ?_⟩))
    obtain rfl := (h hin).2 temp hclear
    exact hclear

/-- A stop that is taken is in force. -/
theorem guarded_setCmd_stop (hs : Shape hal s) (h : s.TakesStop) (hin : s.fsm_sta.Active) :
    Guarded hal (s.setCmd .stop) s.watch.issued where
  issued := Nat.lt_succ_self _
  slot := fun h => by cases h
  ready := hs.ready (.inl hin)
  ne_init := fun hinit => by
    have hinit : s.fsm_sta = .init := hinit
    simp [hinit, Sta.Active] at hin
  idle := fun hidle => by
    have hidle : s.fsm_sta = .idle := hidle
    simp [hidle, Sta.Active] at hin
  run := (h hin).1
  heard := fun _ => h.heard hin

/-! ## Two steps behind a stop -/

/-- The steps that are counted, `k` until now. -/
structure Counted (s : Machine) (k : ℕ) : Prop where
  stopped : s.watch.stopped.isSome = true
  cmd : s.fsm_cmd ≠ .start
  active : s.fsm_sta.Active → k = 0 ∧ s.Heard ∧ (s.watch.counting = true → s.Obeyed)
  change : 2 ≤ k → s.fsm_sta_is_change = false
  begun : s.watch.counting = true → s.pc ≠ .rest

theorem finish_steps {k : ℕ} (h : s.finish.watch.steps = some k) :
    ∃ k', s.watch.steps = some k' ∧ k = if s.watch.counting = true then k' + 1 else k' := by
  cases hk : s.watch.steps <;> cases hc : s.watch.counting <;> simp_all [Machine.finish]

/-- Behind the decision a stop that the step obeys is its event. -/
theorem Machine.Obeyed.toIdle (h : s.Obeyed) (hpc : s.pc = .check ∨ ∃ actions next,
    s.pc = .leaving actions next) : s.fsm_ev = .toIdle := by
  rcases h with hev | hclear | hdecide | ⟨-, hexe | ⟨actions, hentering⟩⟩
  · exact hev
  all_goals
    rcases hpc with hpc | ⟨actions, next, hpc⟩
    · simp_all
    · simp_all

namespace Counted
variable {k : ℕ}

/-- The task goes on within the state and the step. -/
theorem frame (h : Counted s k) {t : Machine} (hstopped : t.watch.stopped = s.watch.stopped)
    (hcounting : t.watch.counting = s.watch.counting) (hcmd : t.fsm_cmd = s.fsm_cmd)
    (hsta : t.fsm_sta = s.fsm_sta) (hchange : t.fsm_sta_is_change = s.fsm_sta_is_change)
    (hpc : t.pc ≠ .rest) (heard : s.fsm_sta.Active → s.Heard → t.Heard)
    (obeyed : s.fsm_sta.Active → s.Obeyed → t.Obeyed) : Counted t k where
  stopped := hstopped ▸ h.stopped
  cmd := hcmd ▸ h.cmd
  active := by
    rw [hsta, hcounting]
    intro hin
    obtain ⟨hzero, hheard, hobeyed⟩ := h.active hin
    exact ⟨hzero, heard hin hheard, fun hcount => obeyed hin (hobeyed hcount)⟩
  change := hchange ▸ h.change
  begun := fun _ => hpc

theorem rest_step (h : ∀ k, s.watch.steps = some k → Counted s k) (hpc : s.pc = .rest)
    {i : Input} (hk : (s.step hal i).watch.steps = some k) : Counted (s.step hal i) k := by
  have hquiet : s.pc.quiet = true := by simp [hpc, Pc.quiet]
  have hk : s.watch.steps = some k := by
    simp only [Machine.step, hpc] at hk
    split at hk <;> exact hk
  have hc := h k hk
  have hslot (hin : s.fsm_sta.Active) : s.fsm_ev = .toIdle ∨ s.fsm_cmd = .stop :=
    (hc.active hin).2.1.of_quiet hquiet
  simp only [Machine.step, hpc]
  split_ifs with hchange
  · refine ⟨hc.stopped, hc.cmd,
      fun hin => ⟨(hc.active hin).1, .intro (hslot hin) (by simp), fun _ => ?_⟩, fun _ => rfl,
        fun _ => by simp⟩
    exact (hslot hin).imp_right fun hstop => .inr (.inr ⟨hstop, .inr ⟨_, rfl⟩⟩)
  · refine ⟨hc.stopped, hc.cmd,
      fun hin => ⟨(hc.active hin).1, .intro (hslot hin) (by simp), fun _ => ?_⟩,
        hc.change, fun _ => by simp⟩
    exact (hslot hin).imp_right fun hstop => .inr (.inr ⟨hstop, .inl rfl⟩)

theorem exe_step (h : Counted s k) (hinit : s.fsm_sta ≠ .init) (hpc : s.pc = .exe) (i : Input) :
    Counted (s.execute i) k := by
  rcases execute_cases s i with ⟨h', -⟩ | ⟨-, soft, rly, stopped, hkept, -, heq⟩
  · exact absurd h' hinit
  have hkept : stopped = s.watch.stopped :=
    hkept.resolve_right fun hstart => h.cmd hstart.2.1
  subst hkept
  rw [heq]
  refine h.frame rfl rfl rfl rfl rfl (by simp) (fun _ hheard => hheard.read hpc rfl rfl)
    fun _ hobeyed => ?_
  rcases hobeyed with hev | hclear | hdecide | ⟨hstop, -⟩
  · exact .inl hev
  · cases hpc.symm.trans hclear
  · cases hpc.symm.trans hdecide
  · exact .inr (.inl (by rw [hstop]))

theorem clear_step (h : Counted s k) {temp : Cmd} (hpc : s.pc = .clear temp) (i : Input) :
    Counted (s.step hal i) k := by
  simp only [Machine.step, hpc]
  refine ⟨h.stopped, by simp, fun hin => ?_, h.change, fun _ => by simp⟩
  obtain ⟨hzero, hheard, hobeyed⟩ := h.active hin
  refine ⟨hzero, hheard.cleared hpc rfl rfl, fun hcount => ?_⟩
  rcases hobeyed hcount with hev | hclear | hdecide | ⟨-, hexe | ⟨actions, hentering⟩⟩
  · exact .inl hev
  · obtain rfl : temp = .stop := Pc.clear.inj (hpc.symm.trans hclear)
    exact .inr (.inr (.inl rfl))
  · cases hpc.symm.trans hdecide
  · cases hpc.symm.trans hexe
  · cases hpc.symm.trans hentering

theorem decide_step (h : Counted s k) (hs : Shape hal s) {temp : Cmd} (hpc : s.pc = .decide temp)
    (i : Input) : Counted (s.step hal i) k := by
  have hnull : s.fsm_ev = .null := hs.at_pc hpc
  simp only [Machine.step, hpc]
  split_ifs with hstart
  · have hout : ¬s.fsm_sta.Active := by simp [hstart.1, Sta.Active]
    exact h.frame rfl rfl rfl rfl rfl (by simp) (fun hin => absurd hin hout)
      fun hin => absurd hin hout
  · refine ⟨h.stopped, h.cmd, fun hin => ?_, h.change, fun _ => by simp⟩
    obtain ⟨hzero, hheard, hobeyed⟩ := h.active hin
    refine ⟨hzero, hheard.decided hin hpc hnull rfl rfl rfl, fun hcount => .inl ?_⟩
    rcases hobeyed hcount with hev | hclear | hdecide | ⟨-, hexe | ⟨actions, hentering⟩⟩
    · cases hnull.symm.trans hev
    · cases hpc.symm.trans hclear
    · obtain rfl : temp = .stop := Pc.decide.inj (hpc.symm.trans hdecide)
      exact event_of_stop hal hin i
    · cases hpc.symm.trans hexe
    · cases hpc.symm.trans hentering

/-- The step that ends was not counted, or the machine is off. -/
theorem check_step (h : ∀ k, s.watch.steps = some k → Counted s k) (hpc : s.pc = .check)
    (hs : Shape hal s) {i : Input} (hk : (s.step hal i).watch.steps = some k) :
    Counted (s.step hal i) k := by
  have hquiet : s.pc.quiet = true := by simp [hpc, Pc.quiet]
  have hchange := hs.change (by simp [hpc])
  cases hchk : s.fsm_sta.funcChk s.fsm_ev with
  | some next =>
    simp only [Machine.step, hpc, hchk] at hk ⊢
    have hc := h k hk
    refine hc.frame rfl rfl rfl rfl rfl (by simp)
      (fun _ hheard => hheard.frame rfl rfl hquiet rfl) ?_
    exact fun _ hobeyed => .inl (hobeyed.toIdle (.inl hpc))
  | none =>
    simp only [Machine.step, hpc, hchk] at hk ⊢
    obtain ⟨k', hk', hkk⟩ := finish_steps hk
    have hc := h k' hk'
    have hnone : s.fsm_sta.Active → s.fsm_ev ≠ .toIdle := by
      rintro (hsta | hsta | hsta) hev <;> simp [hsta, hev, Sta.funcChk] at hchk
    refine ⟨hc.stopped, hc.cmd, fun hin => ?_, fun _ => hchange, fun h => by cases h⟩
    obtain ⟨hzero, hheard, hobeyed⟩ := hc.active hin
    have hcount : ¬s.watch.counting = true := fun hcount =>
      hnone hin ((hobeyed hcount).toIdle (.inl hpc))
    have hstop := (hheard.of_quiet hquiet).resolve_left (hnone hin)
    exact ⟨by simpa [hcount, hzero] using hkk, .intro (.inr hstop) (fun _ h => by cases h),
      fun h => by cases h⟩

/-- The state that is entered is `idle`, or the step was not counted. -/
theorem leave (h : ∀ k, s.watch.steps = some k → Counted s k)
    (hg : ∀ n, s.watch.stopped = some n → Guarded hal s n) (hs : Shape hal s) {next : Sta}
    (hpc : s.pc = .leaving [] next) {i : Input} (hk : (s.step hal i).watch.steps = some k) :
    Counted (s.step hal i) k := by
  have hquiet : s.pc.quiet = true := by simp [hpc, Pc.quiet]
  obtain ⟨hchk, -⟩ := hs.at_pc hpc
  simp only [Machine.step, hpc] at hk ⊢
  obtain ⟨k', hk', hkk⟩ := finish_steps hk
  have hc := h k' hk'
  obtain ⟨n, hn⟩ := Option.isSome_iff_exists.mp hc.stopped
  have hin : s.fsm_sta.Active := by
    cases hsta : s.fsm_sta with
    | init => exact absurd hsta (hg n hn).ne_init
    | idle =>
      rcases funcChk_cases hchk with ⟨-, hev⟩ | ⟨-, hev, -⟩ | ⟨hne, -⟩ | ⟨hne, -⟩
      · simp [hsta, hev, Sta.funcChk] at hchk
      · exact absurd hev ((hg n hn).idle hsta).1
      · cases hsta.symm.trans hne
      · cases hsta.symm.trans hne
    | softStart => exact .inl rfl
    | mainRly => exact .inr (.inl rfl)
    | run => exact .inr (.inr rfl)
  obtain ⟨rfl, hheard, hobeyed⟩ := hc.active hin
  have hle : k ≤ 1 := by
    rw [hkk]
    split <;> decide
  refine ⟨hc.stopped, hc.cmd, fun hnext => ?_, fun htwo => by omega, fun h => by cases h⟩
  have hev : s.fsm_ev ≠ .toIdle := by
    intro hev
    have hnext : next.Active := hnext
    rcases funcChk_cases hchk with ⟨rfl, -⟩ | ⟨-, hev', -⟩ | ⟨-, hev', -⟩ | ⟨-, hev', -⟩
    · exact absurd hnext (by decide)
    · cases hev.symm.trans hev'
    · cases hev.symm.trans hev'
    · cases hev.symm.trans hev'
  have hcount : ¬s.watch.counting = true := fun hcount =>
    hev ((hobeyed hcount).toIdle (.inr ⟨_, _, hpc⟩))
  have hstop := (hheard.of_quiet hquiet).resolve_left hev
  exact ⟨by simpa [hcount] using hkk, .intro (.inr hstop) (fun _ h => by cases h),
    fun h => by cases h⟩

theorem entering_step (h : Counted s k) {actions : List Action} (hpc : s.pc = .entering actions)
    (i : Input) : Counted (s.step hal i) k := by
  have hquiet : s.pc.quiet = true := by simp [hpc, Pc.quiet]
  have hslot (hobeyed : s.Obeyed) : s.fsm_ev = .toIdle ∨ s.fsm_cmd = .stop := by
    rcases hobeyed with hev | hclear | hdecide | ⟨hstop, -⟩
    · exact .inl hev
    · cases hpc.symm.trans hclear
    · cases hpc.symm.trans hdecide
    · exact .inr hstop
  simp only [Machine.step, hpc]
  cases actions with
  | nil =>
    refine h.frame rfl rfl rfl rfl rfl (by simp)
      (fun _ hheard => hheard.frame rfl rfl hquiet rfl) ?_
    exact fun _ hobeyed => (hslot hobeyed).imp_right fun hstop => .inr (.inr ⟨hstop, .inl rfl⟩)
  | cons action actions =>
    refine h.frame (by simp) (by simp) (by simp) (by simp) (by simp) (by simp)
      (fun _ hheard => hheard.frame (by simp) (by simp) hquiet rfl) fun _ hobeyed => ?_
    rcases hslot hobeyed with hev | hstop
    · exact .inl (by simpa using hev)
    · exact .inr (.inr (.inr ⟨by simpa using hstop, .inr ⟨actions, rfl⟩⟩))

theorem leaving_step (h : Counted s k) {action : Action} {actions : List Action} {next : Sta}
    (hpc : s.pc = .leaving (action :: actions) next) :
    Counted { s.act action with pc := .leaving actions next } k := by
  have hquiet : s.pc.quiet = true := by simp [hpc, Pc.quiet]
  refine h.frame (by simp) (by simp) (by simp) (by simp) (by simp) (by simp)
    (fun _ hheard => hheard.frame (by simp) (by simp) hquiet rfl) fun _ hobeyed => .inl ?_
  simpa using hobeyed.toIdle (.inr ⟨_, _, hpc⟩)

theorem step (h : ∀ k, s.watch.steps = some k → Counted s k) (hs : Shape hal s)
    (hg : ∀ n, s.watch.stopped = some n → Guarded hal s n) {i : Input}
    (hk : (s.step hal i).watch.steps = some k) : Counted (s.step hal i) k := by
  cases hpc : s.pc with
  | rest => exact rest_step h hpc hk
  | entering actions =>
    have hk : s.watch.steps = some k := by
      cases actions <;> simpa [Machine.step, hpc] using hk
    exact (h k hk).entering_step hpc i
  | exe =>
    simp only [Machine.step, hpc] at hk ⊢
    have hk : s.watch.steps = some k := by
      rcases execute_cases s i with ⟨-, dly, ev, -, heq⟩ | ⟨-, soft, rly, stopped, -, -, heq⟩
      · simpa [heq] using hk
      · simpa [heq] using hk
    have hc := h k hk
    obtain ⟨n, hn⟩ := Option.isSome_iff_exists.mp hc.stopped
    exact hc.exe_step (hg n hn).ne_init hpc i
  | clear temp => exact (h k (by simpa [Machine.step, hpc] using hk)).clear_step hpc i
  | decide temp =>
    have hk : s.watch.steps = some k := by
      simp only [Machine.step, hpc] at hk
      split at hk <;> exact hk
    exact (h k hk).decide_step hs hpc i
  | starting actions =>
    have hk : s.watch.steps = some k := by
      cases actions <;> simpa [Machine.step, hpc] using hk
    obtain ⟨n, hn⟩ := Option.isSome_iff_exists.mp (h k hk).stopped
    exact absurd hpc (((hg n hn).idle (hs.at_pc hpc).2.1).2.2.2 _)
  | check => exact check_step h hpc hs hk
  | leaving actions next =>
    cases actions with
    | nil => exact leave h hg hs hpc hk
    | cons action actions =>
      simp only [Machine.step, hpc] at hk ⊢
      exact (h k (by simpa using hk)).leaving_step hpc

end Counted

/-! ## Nothing under a stop in force -/

/-- The entry of `run` does nothing under a stop in force, since it is not taken there. -/
theorem entering_broken (hs : Shape hal s)
    (hg : ∀ n, s.watch.stopped = some n → Guarded hal s n) (hb : s.watch.broken = false)
    {action : Action} {actions : List Action} (hpc : s.pc = .entering (action :: actions)) :
    (s.act action).watch.broken = false := by
  rw [Bool.eq_false_iff]
  intro hbroken
  rcases act_broken _ hbroken with h | ⟨hstopped, hact⟩
  · simp [hb] at h
  obtain ⟨n, hn⟩ := Option.isSome_iff_exists.mp hstopped
  have hsta : s.fsm_sta = .run := by
    by_contra hne
    obtain ⟨-, hpublish, hpwm⟩ := funcIn_of_ne_run hne (hs.mem_funcIn hpc)
    exact hact.elim hpwm fun h => hpublish h.1
  refine (hg n hn).run (.inr ⟨hsta, .inr ?_⟩)
  have hin := (hs.at_pc hpc).2
  rw [hsta, funcIn_run (hg n hn).ready] at hin
  rw [hpc]
  -- the PWM is behind the flags
  rcases suffix_four hin with heq | heq | heq | heq | heq
  · simp [Pc.entry, heq]
  · simp [Pc.entry, heq]
  · simp [Pc.entry, heq]
  · obtain ⟨rfl, -⟩ := List.cons.inj heq
    simp at hact
  · exact absurd heq (List.cons_ne_nil _ _)

/-- The exit of a state publishes only flags that are down. -/
theorem leaving_broken (hs : Shape hal s) (ha : Allowed s) (hb : s.watch.broken = false)
    {action : Action} {actions : List Action} {next : Sta}
    (hpc : s.pc = .leaving (action :: actions) next) : (s.act action).watch.broken = false := by
  obtain ⟨-, hout⟩ := hs.at_pc hpc
  rw [Bool.eq_false_iff]
  intro hbroken
  rcases act_broken _ hbroken with h | ⟨-, hact⟩
  · simp [hb] at h
  by_cases hsta : s.fsm_sta = .run
  · rw [hsta, funcOut_run (hs.ready (.inl (.inr (.inr hsta))))] at hout
    have hdown := (ha.exit _ _ hpc).1
    rcases suffix_four hout with heq | heq | heq | heq | heq
    · obtain ⟨rfl, -⟩ := List.cons.inj heq
      simp at hact
    · obtain ⟨rfl, -⟩ := List.cons.inj heq
      simp at hact
    · obtain ⟨rfl, -⟩ := List.cons.inj heq
      simp at hact
    · obtain ⟨rfl, rfl⟩ := List.cons.inj heq
      simp [hdown (by simp)] at hact
    · exact absurd heq (List.cons_ne_nil _ _)
  · obtain rfl := funcOut_of_ne_run hsta (hout.subset List.mem_cons_self)
    simp at hact

/-- Nothing is allowed under a stop in force. -/
theorem step_broken (hs : Shape hal s) (ha : Allowed s)
    (hg : ∀ n, s.watch.stopped = some n → Guarded hal s n) (hb : s.watch.broken = false)
    (i : Input) : (s.step hal i).watch.broken = false := by
  cases hpc : s.pc with
  | rest =>
    simp only [Machine.step, hpc]
    split <;> exact hb
  | entering actions =>
    simp only [Machine.step, hpc]
    cases actions with
    | nil => exact hb
    | cons action actions => exact entering_broken hs hg hb hpc
  | exe =>
    simp only [Machine.step, hpc]
    rcases execute_cases s i with ⟨-, dly, ev, -, heq⟩ | ⟨-, soft, rly, stopped, -, -, heq⟩
    · simpa [heq] using hb
    · simpa [heq] using hb
  | clear temp =>
    simp only [Machine.step, hpc]
    exact hb
  | decide temp =>
    simp only [Machine.step, hpc]
    split <;> exact hb
  | starting actions =>
    simp only [Machine.step, hpc]
    cases actions with
    | nil => exact hb
    | cons action actions =>
      rw [Bool.eq_false_iff]
      intro hbroken
      rcases act_broken _ hbroken with h | ⟨h, -⟩
      · simp [hb] at h
      obtain ⟨n, hn⟩ := Option.isSome_iff_exists.mp h
      exact ((hg n hn).idle (hs.at_pc hpc).2.1).2.2.2 _ hpc
  | check =>
    simp only [Machine.step, hpc]
    split <;> exact hb
  | leaving actions next =>
    simp only [Machine.step, hpc]
    cases actions with
    | nil => exact hb
    | cons action actions => exact leaving_broken hs ha hb hpc

/-- What holds along a run that loses no stop. -/
structure Kept (hal : Hal) (s : Machine) : Prop where
  shape : Shape hal s
  allowed : Allowed s
  relay : hal.isReady = true → RelayOff s
  guarded : ∀ n, s.watch.stopped = some n → Guarded hal s n
  counted : ∀ k, s.watch.steps = some k → Counted s k
  broken : s.watch.broken = false

theorem Kept.reset (hal : Hal) : Kept hal .reset where
  shape := .reset hal
  allowed := by constructor <;> simp [Machine.reset]
  relay := by simp [RelayOff, Machine.reset]
  guarded := by simp [Machine.reset]
  counted := by simp [Machine.reset]
  broken := rfl

theorem step_stopped {n : ℕ} {i : Input} (h : (s.step hal i).watch.stopped = some n) :
    s.watch.stopped = some n := by
  unfold Machine.step at h
  split at h
  case h_4 =>
    rcases execute_cases s i with ⟨-, dly, ev, -, heq⟩ | ⟨-, soft, rly, stopped, hkept, -, heq⟩
    · simpa [heq] using h
    · rw [heq] at h
      rcases hkept with hkept | ⟨-, -, hnone⟩
      · exact hkept ▸ h
      · cases h.symm.trans hnone
  all_goals first | exact h | simpa using h | (split at h <;> exact h)

theorem Kept.step (h : Kept hal s) {i : Input} (hm : s.Meets hal (.step i)) :
    Kept hal (s.step hal i) where
  shape := h.shape.step i
  allowed := h.allowed.step h.shape i
  relay := fun hready => (h.relay hready).step h.shape hready i
  guarded := fun n hn =>
    (h.guarded n (step_stopped hn)).step (step_stopped hn) h.shape hm hn
  counted := fun _ hk => .step h.counted h.shape h.guarded hk
  broken := step_broken h.shape h.allowed h.guarded h.broken i

theorem Kept.start (h : Kept hal s) (hm : s.Meets hal (.setCmd true)) :
    Kept hal (s.setCmd .start) where
  shape := h.shape.exec (.setCmd true)
  allowed := ⟨h.allowed.run, h.allowed.exit⟩
  relay := h.relay
  guarded := fun n hn =>
    (h.guarded n (by simpa [Machine.setCmd] using hn)).setCmd (.inr hm) (by simp)
  counted := by simp [Machine.setCmd]
  broken := h.broken

theorem Kept.stop (h : Kept hal s) (hm : s.TakesStop) : Kept hal (s.setCmd .stop) where
  shape := h.shape.exec (.setCmd false)
  allowed := ⟨h.allowed.run, h.allowed.exit⟩
  relay := h.relay
  guarded := by
    intro n hn
    by_cases hin : s.fsm_sta.Active
    · obtain rfl : s.watch.issued = n := by simpa [Machine.setCmd, hin] using hn
      exact guarded_setCmd_stop h.shape hm hin
    · exact (h.guarded n (by simpa [Machine.setCmd, hin] using hn)).setCmd (.inl rfl) fun _ => hin
  counted := by
    intro k hk
    by_cases hin : s.fsm_sta.Active
    · obtain rfl : 0 = k := by simpa [Machine.setCmd, hin] using hk
      exact ⟨by simp [Machine.setCmd, hin], (fun h => by cases h),
        fun _ => ⟨rfl, hm.heard hin, fun h => by cases h⟩, by simp, fun h => by cases h⟩
    · simp [Machine.setCmd, hin] at hk
  broken := h.broken

theorem Kept.tripping (h : Kept hal s) (n : ℕ) : Kept hal { s with tripping := n } where
  shape := ⟨h.shape.placed, h.shape.change, h.shape.ready⟩
  allowed := ⟨h.allowed.run, h.allowed.exit⟩
  relay := h.relay
  guarded := fun n hn =>
    let g := h.guarded n hn
    ⟨g.issued, g.slot, g.ready, g.ne_init, g.idle, g.run, g.heard⟩
  counted := fun k hk =>
    let c := h.counted k hk
    ⟨c.stopped, c.cmd, c.active, c.change, c.begun⟩
  broken := h.broken

theorem Kept.exec (h : Kept hal s) {event : Event} (hm : s.Meets hal event) :
    Kept hal (s.exec hal event) := by
  cases event with
  | step i => exact h.step hm
  | setCmd start =>
    cases start with
    | false => exact h.stop hm
    | true => exact h.start hm
  | trip => exact h.tripping _
  | tripStop =>
    simp only [Machine.exec]
    split
    next => exact h
    next h0 => exact (h.stop (hm (Nat.pos_of_ne_zero h0))).tripping _

/-- Where no stop is lost, the PWM is not enabled and running not allowed under a stop in force,
and two steps behind a stop the machine is off. -/
theorem trip_never_lost (hal : Hal) {s : Machine}
    (hs : (machineRuns hal (Machine.Meets hal)).Reachable s) :
    s.watch.broken = false ∧
      (s.pc = .rest → s.watch.steps = some 2 →
        s.fsm_sta = .idle ∧ s.active_run_allowed = false ∧ s.watch.relay = some false) := by
  have h : Kept hal s := by
    refine hs.invariant ?_ ?_
    · rintro s rfl
      exact .reset hal
    · rintro s t h ⟨event, hm, rfl⟩
      exact h.exec hm
  refine ⟨h.broken, fun hpc hsteps => ?_⟩
  have hc := h.counted 2 hsteps
  obtain ⟨n, hn⟩ := Option.isSome_iff_exists.mp hc.stopped
  have hg := h.guarded n hn
  have hidle : s.fsm_sta = .idle := by
    have := hg.ne_init
    have hnot : ¬s.fsm_sta.Active := fun h => by simpa using (hc.active h).1
    cases hsta : s.fsm_sta <;> simp_all [Sta.Active]
  refine ⟨hidle, ?_, h.relay hg.ready hidle (hc.change (Nat.le_refl 2)) (by simp [hpc, Pc.entry])⟩
  rw [Bool.eq_false_iff]
  intro hrun
  simpa [hidle] using h.allowed.run (.inr hrun)

section Runs

/-- Every event of a run loses no stop. -/
def MeetsAll (hal : Hal) : List Event → Machine → Prop
  | [], _ => True
  | event :: events, s => s.Meets hal event ∧ MeetsAll hal events (s.exec hal event)

theorem reachable_foldl {events : List Event}
    (hs : (machineRuns hal (Machine.Meets hal)).Reachable s)
    (h : MeetsAll hal events s) :
    (machineRuns hal (Machine.Meets hal)).Reachable (events.foldl (Machine.exec hal) s) := by
  induction events generalizing s with
  | nil => exact hs
  | cons event events ih => exact ih (.step hs ⟨event, h.1, rfl⟩) h.2

instance {p : Cmd → Prop} [DecidablePred p] : Decidable (∀ cmd, p cmd) :=
  decidable_of_iff (p .null ∧ p .start ∧ p .stop)
    ⟨fun h cmd => by cases cmd <;> simp [h], fun h => ⟨h _, h _, h _⟩⟩

instance : Decidable s.GoingToRun := inferInstanceAs (Decidable (_ ∨ _))

instance : Decidable s.TakesStop := inferInstanceAs (Decidable (_ → _))

instance (event : Event) : Decidable (s.Meets hal event) :=
  match event with
  | .step _ => inferInstanceAs (Decidable (∀ _, _))
  | .setCmd true => inferInstanceAs (Decidable (_ → _))
  | .setCmd false => inferInstanceAs (Decidable s.TakesStop)
  | .trip => inferInstanceAs (Decidable True)
  | .tripStop => inferInstanceAs (Decidable (_ → _))

instance decidableMeetsAll : (events : List Event) → (s : Machine) →
    Decidable (MeetsAll hal events s)
  | [], _ => isTrue trivial
  | event :: events, s =>
    have := decidableMeetsAll events (s.exec hal event)
    inferInstanceAs (Decidable (_ ∧ _))

/-- A HAL with every pointer set. -/
def demoHal : Hal := ⟨true, true, true, true, true, true⟩

/-- `n` accesses of the task, with the bus and the relay in order -/
def ticks (n : ℕ) : List Event := List.replicate n (.step ⟨true, true, true⟩)

/-- Power-up, a start in `idle`, `n` accesses, and more. -/
def demoEvents (n : ℕ) (events : List Event) : List Event :=
  ticks 612 ++ .setCmd true :: (ticks n ++ events)

def demoRun (n : ℕ) (events : List Event) : Machine :=
  (demoEvents n events).foldl (Machine.exec demoHal) .reset

/-- A trip in `run`, taken. -/
theorem trip_taken :
    (demoRun 38 (.trip :: .tripStop :: ticks 19)).watch.broken = false ∧
      (demoRun 38 (.trip :: .tripStop :: ticks 19)).fsm_sta = .idle := by
  have h := trip_never_lost demoHal (s := demoRun 38 (.trip :: .tripStop :: ticks 19))
    (reachable_foldl (.start rfl) (by decide +kernel))
  exact ⟨h.1, (h.2 (by decide +kernel) (by decide +kernel)).1⟩

theorem demoRun_reachable (n : ℕ) (events : List Event) :
    (machineRuns demoHal fun _ _ => True).Reachable (demoRun n events) :=
  Transition.Reachable.foldl (T := machineRuns demoHal fun _ _ => True)
    (fun _ event => ⟨event, trivial, rfl⟩) _ (.start rfl)

/-- A stop in `mainRly` between the read of the slot and the decision is followed by the entry of
`run`, as is one in `softStart` that a start overwrites; a stop in `run` between the read and the
clear is not taken at all. -/
theorem stop_lost :
    ((machineRuns demoHal fun _ _ => True).Reachable (demoRun 26 (.setCmd false :: ticks 7)) ∧
      (demoRun 26 (.setCmd false :: ticks 7)).watch.broken = true) ∧
    ((machineRuns demoHal fun _ _ => True).Reachable
        (demoRun 17 (.setCmd false :: .setCmd true :: ticks 17)) ∧
      (demoRun 17 (.setCmd false :: .setCmd true :: ticks 17)).watch.broken = true) ∧
    (machineRuns demoHal fun _ _ => True).Reachable (demoRun 36 (.setCmd false :: ticks 13)) ∧
      (demoRun 36 (.setCmd false :: ticks 13)).pc = .rest ∧
      (demoRun 36 (.setCmd false :: ticks 13)).watch.steps = some 2 ∧
      (demoRun 36 (.setCmd false :: ticks 13)).fsm_sta = .run :=
  ⟨⟨demoRun_reachable _ _, by decide +kernel⟩, ⟨demoRun_reachable _ _, by decide +kernel⟩,
    demoRun_reachable _ _, by decide +kernel, by decide +kernel, by decide +kernel⟩

end Runs
end Atoman.Pfc
