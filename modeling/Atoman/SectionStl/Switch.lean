import Atoman.SectionStl.Frames

/-!
# The next task

The second half of a switch puts the head of the queue on the processor, or goes back to
native code. Each part keeps the tables; no task is lost unless a fault is latched; and no
fault is latched as long as the frames, the guard words and the host are in order.
-/

namespace Atoman.SectionStl
open Lib (Memory)

namespace State
variable {cfg : Config} {s s' s'' : State} {xs ys zs : List ℕ} {out : Option ℕ} {g t r sp : ℕ}
  {port : Port} {sound sound' : Prop}

/-- The guard words are in place from the first call on, which comes before any task. -/
def Armed (s : State) : Prop :=
  (s.initialized = true → s.Guarded) ∧ (s.current ≠ none → s.initialized = true)

/-- What a switch, a completion or a tick does to the groups: one that is being revoked may
be closed. -/
structure Evolves (s s' : State) : Prop where
  group_list : s'.group_list = s.group_list
  generation : s'.generation = s.generation
  initRun : s'.initRun = s.initRun
  initialized : s'.initialized = s.initialized
  started : s'.history.started = s.history.started
  groups : ∀ k, s'.groups k = s.groups k ∨ s'.groups k = { s.groups k with state := .revoked }

namespace Evolves

theorem of_groups (h : SameGroups s s') (hinit : s'.initialized = s.initialized)
    (hstarted : s'.history.started = s.history.started) : Evolves s s' :=
  ⟨h.group_list, h.generation, h.initRun, hinit, hstarted, fun k => Or.inl (by rw [h.groups])⟩

theorem refl (s : State) : Evolves s s := .of_groups (.refl s) rfl rfl

theorem trans (h : Evolves s s') (h' : Evolves s' s'') : Evolves s s'' := by
  refine ⟨h'.group_list.trans h.group_list, h'.generation.trans h.generation,
    h'.initRun.trans h.initRun, h'.initialized.trans h.initialized, h'.started.trans h.started,
    fun k => ?_⟩
  rcases h.groups k with hk | hk <;> rcases h'.groups k with hk' | hk' <;> simp [hk', hk]

theorem handle (h : Evolves s s') (k : ℕ) : (s'.groups k).handle = (s.groups k).handle := by
  rcases h.groups k with hk | hk <;> rw [hk]

/-- A group that may still run was not closed. -/
theorem may_run (h : Evolves s s') {k : ℕ} (hk : ¬ .paused ≤ (s'.groups k).state) :
    ¬ .paused ≤ (s.groups k).state := by
  rcases h.groups k with hsame | hclosed
  · rwa [hsame] at hk
  · rw [hclosed] at hk
    exact absurd (by decide : GroupState.paused ≤ GroupState.revoked) hk

end Evolves

/-- What a switch does: the tables stay in order, a task that waited waits or runs, at most
one snapshot is restored, and a fault has a cause outside. -/
structure Turn (cfg : Config) (sound : Prop) (s s' : State) (xs ys : List ℕ) : Prop where
  joint : s'.Joint cfg ys none
  evolves : Evolves s s'
  kept : s'.fault = .ok → ∀ t ∈ xs, t ∈ ys ∨ s'.current = some t
  restored : s'.history.restored = s.history.restored ∨
    ∃ g ∈ s.group_list, ¬ .paused ≤ (s.groups g).state ∧ ∃ captured,
      s'.history.restored =
        s.history.restored ++ [Restoration.mk (s.groups g).handle captured captured]
  sound : sound → s.Armed → s.fault = .ok → s'.fault = .ok ∧ s'.Armed

theorem Turn.weaken (h : Turn cfg sound s s' xs ys)
    (hs : sound' → s.Armed → s.fault = .ok → sound) : Turn cfg sound' s s' xs ys :=
  ⟨h.joint, h.evolves, h.kept, h.restored,
    fun hsound harmed hok => h.sound (hs hsound harmed hok) harmed hok⟩

/-- One part of a switch after another. -/
theorem Turn.trans (h : Turn cfg sound s s' xs ys) (hhistory : s'.history = s.history)
    (hidle : s'.current = none) (hfault : s''.fault = .ok → s'.fault = .ok)
    (h' : Turn cfg sound' s' s'' ys zs) : Turn cfg (sound ∧ sound') s s'' xs zs := by
  refine ⟨h'.joint, h.evolves.trans h'.evolves, fun hok t ht => ?_, ?_, fun hs harmed hok => ?_⟩
  · rcases h.kept (hfault hok) t ht with hin | hcurrent
    · exact h'.kept hok t hin
    · exact nomatch hidle.symm.trans hcurrent
  · rw [← hhistory]
    rcases h'.restored with hsame | ⟨g, hg, hmay, captured, hnew⟩
    · exact Or.inl hsame
    · refine Or.inr ⟨g, h.evolves.group_list ▸ hg, h.evolves.may_run hmay, captured, ?_⟩
      rw [hnew, h.evolves.handle]
  · obtain ⟨hok', harmed'⟩ := h.sound hs.1 harmed hok
    exact h'.sound hs.2 harmed' hok'

/-! ## The way back to native code -/

/-- The result of `return_native` while no task runs. -/
structure Returned (port : Port) (s s' : State) : Prop where
  eq : s' = { s with native_pending := s'.native_pending, fault := s'.fault }
  fault : s'.fault = s.fault ∨ s'.fault = .corrupt
  commits : port.Commits → s'.fault = s.fault

theorem returned (port : Port) (s : State) : Returned port s (s.returnNative port).1 := by
  rw [returnNative_eq]
  split
  · exact ⟨rfl, Or.inl rfl, fun _ => rfl⟩
  · next hcommit => exact ⟨rfl, Or.inr rfl, fun h => absurd (h .zero) hcommit⟩

theorem Joint.returned (h : s.Joint cfg xs out) (hout : out = none ∨ s.fault ≠ .ok)
    (hidle : s.current = none) (hr : Returned port s s') : s'.Joint cfg xs none := by
  by_cases hfault : s'.fault = .ok
  · have hok : s.fault = .ok := by
      rcases hr.fault with hsame | hcorrupt
      · rw [← hsame, hfault]
      · exact nomatch hcorrupt.symm.trans hfault
    obtain rfl : out = none := hout.resolve_right (not_not_intro hok)
    have hsame : s'.fault = s.fault := hfault.trans hok.symm
    have heq := hr.eq
    rw [hsame] at heq
    rw [heq]
    exact h.same ⟨rfl, fun _ => rfl, rfl, fun _ => rfl, rfl, rfl, rfl, rfl, rfl, rfl⟩
  · have heq := hr.eq
    refine h.fail ⟨?_, ?_, ?_, ?_⟩ ?_ ?_ ?_ ?_ hfault (Or.inl ?_)
    all_goals rw [heq]
    exact hidle

/-- Going back to native code with no task on the processor. -/
theorem Joint.turn_native (h : s.Joint cfg xs none) (hidle : s.current = none)
    (hr : Returned port s s') : Turn cfg port.Commits s s' xs xs := by
  have heq := hr.eq
  refine ⟨h.returned (Or.inl rfl) hidle hr, .of_groups ⟨?_, ?_, ?_, ?_⟩ ?_ ?_,
    fun _ t ht => Or.inl ht, Or.inl ?_, fun hcommits harmed hok =>
      ⟨(hr.commits hcommits).trans hok, ?_⟩⟩
  all_goals try rw [heq]
  exact harmed

/-- A fault is latched, and the task leaves the processor. -/
theorem Joint.turn_fail (h : s.Joint cfg xs out)
    (hr : Returned port { s.corrupt with current := none } s') : Turn cfg False s s' xs xs := by
  have hcorrupt : Joint cfg { s.corrupt with current := none } xs none :=
    h.fail ⟨rfl, rfl, rfl, rfl⟩ rfl rfl rfl rfl nofun (Or.inl rfl)
  have heq := hr.eq
  have hfault : s'.fault = .corrupt := hr.fault.elim id id
  refine ⟨hcorrupt.returned (Or.inl rfl) rfl hr, .of_groups ⟨?_, ?_, ?_, ?_⟩ ?_ ?_,
    fun _ t ht => Or.inl ht, Or.inl ?_, False.elim⟩
  all_goals rw [heq]
  all_goals rfl

/-! ## The next task -/

/-- `section_stl_switch` behind the frame of the next task. -/
def enterTask (cfg : Config) (port : Port) (s : State) (t : ℕ) (p_next_sp : Option ℕ) :
    State × Option ℕ :=
  if s.fault ≠ .ok ∨ p_next_sp = none then s.corrupt.returnNative port
  else
    match s.frameWords cfg p_next_sp with
    | (s, 0) => s.corrupt.returnNative port
    | (s, _) =>
      match s.hostCommit port (s.tasks t).owner with
      | (s, false) => { s with current := none }.returnNative port
      | (s, true) =>
        let s := { s with slice_start := s.tick_now, current := some t }
        (s.modify t fun task => { task with state := .running }, p_next_sp)

theorem switchTo_old (hold : (s.tasks t).state = .old) : s.switchTo cfg port t =
    (s.snapshotRestore cfg t).1.enterTask cfg port t (s.snapshotRestore cfg t).2 := by
  unfold switchTo
  rw [if_pos hold]
  rfl

theorem switchTo_new (hnew : (s.tasks t).state = .new) : s.switchTo cfg port t =
    enterTask cfg port
      ((s.modify t fun task => { task with quantum_left := cfg.slice_ticks }).portPrepare cfg).1 t
      ((s.modify t fun task => { task with quantum_left := cfg.slice_ticks }).portPrepare
        cfg).2 := by
  unfold switchTo
  rw [if_neg (by rw [hnew]; exact nofun)]
  rfl

/-- The task was taken from the queue for the processor. -/
structure Chosen (cfg : Config) (s : State) (xs : List ℕ) (t : ℕ) : Prop where
  joint : s.Joint cfg xs (some t)
  notMem : t ∉ xs
  fault : s.fault = .ok
  idle : s.current = none
  initialized : s.initialized = true
  record : (s.tasks t).record = none
  used : (s.tasks t).state ≠ .free
  group : ∃ g, s.Owns g t ∧ ¬ .paused ≤ (s.groups g).state ∧ (s.groups g).initialized = true

/-- Other fields do not matter for the choice. -/
theorem Chosen.same (h : Chosen cfg s xs t) (hs : Same s s')
    (hinit : s'.initialized = s.initialized) :
    Chosen cfg s' xs t := by
  refine ⟨h.joint.same hs, h.notMem, hs.fault.trans h.fault, hs.current.trans h.idle,
    hinit.trans h.initialized, (hs.record t).trans h.record, ?_, ?_⟩
  · rw [hs.task_state]
    exact h.used
  · obtain ⟨g, howns, hgroup⟩ := h.group
    refine ⟨g, (hs.owns g t).mpr howns, ?_⟩
    rw [hs.group_state, hs.initialized]
    exact hgroup

variable (port) in
/-- The chosen task runs, or a fault is latched. -/
theorem Chosen.enter (h : Chosen cfg s xs t) (p_sp : Option ℕ) :
    Turn cfg (port.Commits ∧ ∃ sp, p_sp = some sp ∧ s.Frame cfg sp) s
        (s.enterTask cfg port t p_sp).1 (t :: xs) xs ∧
      (s.enterTask cfg port t p_sp).1.history = s.history := by
  have hidle : s.corrupt = { s.corrupt with current := none } := by
    show { s with fault := .corrupt } = { s with fault := .corrupt, current := none }
    rw [← h.idle]
  -- every way to fail ends in the same state
  have hfail {s' : State} (hr : Returned port { s.corrupt with current := none } s') :
      Turn cfg False s s' (t :: xs) xs ∧ s'.history = s.history := by
    have hturn := h.joint.turn_fail hr
    have hfault : s'.fault = .corrupt := hr.fault.elim id id
    refine ⟨⟨hturn.joint, hturn.evolves, fun hok => (nomatch hfault.symm.trans hok), hturn.restored,
      hturn.sound⟩, ?_⟩
    rw [hr.eq]
    rfl
  by_cases hnone : p_sp = none
  · have heq : s.enterTask cfg port t p_sp =
        returnNative port { s.corrupt with current := none } := by
      unfold enterTask
      rw [if_pos (Or.inr hnone), ← hidle]
    rw [heq]
    obtain ⟨hturn, hhistory⟩ := hfail (returned port _)
    exact ⟨hturn.weaken fun hs _ _ => by simp [hnone] at hs, hhistory⟩
  have hgo : ¬ (s.fault ≠ .ok ∨ p_sp = none) := not_or.mpr ⟨not_not_intro h.fault, hnone⟩
  rcases frameWords_cases cfg s p_sp with ⟨hbad, hwhy⟩ | ⟨sp, rfl, hframe, hgood⟩
  · have heq : s.enterTask cfg port t p_sp =
        returnNative port { s.corrupt with current := none } := by
      unfold enterTask
      rw [if_neg hgo, hbad, ← hidle]
      rfl
    rw [heq]
    obtain ⟨hturn, hhistory⟩ := hfail (returned port _)
    exact ⟨hturn.weaken fun hs harmed _ => hwhy ⟨harmed.1 h.initialized, hs.2⟩, hhistory⟩
  · obtain ⟨n, hn⟩ : ∃ n, cfg.stack_words - sp = n + 1 := ⟨_, (Nat.succ_pred_eq_of_pos
      (Nat.sub_pos_of_lt hframe.2.1)).symm⟩
    by_cases hcommit : port.host_owner_commit (s.tasks t).owner = false
    · have hhost : s.hostCommit port (s.tasks t).owner = (s.corrupt, false) := if_pos hcommit
      have heq : s.enterTask cfg port t (some sp) =
          returnNative port { s.corrupt with current := none } := by
        unfold enterTask
        rw [if_neg hgo, hgood, hn]
        simp only [hhost]
      rw [heq]
      obtain ⟨hturn, hhistory⟩ := hfail (returned port _)
      refine ⟨hturn.weaken fun hs _ _ => ?_, hhistory⟩
      exact nomatch hcommit.symm.trans (hs.1 _)
    · have hhost : s.hostCommit port (s.tasks t).owner = (s, true) := if_neg hcommit
      have heq : s.enterTask cfg port t (some sp) =
          (modify { s with slice_start := s.tick_now, current := some t } t
            fun task => { task with state := .running }, some sp) := by
        unfold enterTask
        rw [if_neg hgo, hgood, hn]
        simp only [hhost]
      rw [heq]
      obtain ⟨g, howns, hmay, hinit⟩ := h.group
      have hrun : Joint cfg { s.modify t fun task => { task with state := .running } with
          current := some t } xs none :=
        h.joint.run h.notMem h.fault h.record h.used howns
          ⟨hinit, fun heq => hmay (by rw [heq]; decide), fun heq => hmay (by rw [heq]; decide)⟩
          (fun u hu => nomatch h.idle.symm.trans hu) rfl
      refine ⟨⟨hrun.same ⟨rfl, fun _ => rfl, rfl, fun _ => rfl, rfl, rfl, rfl, rfl, rfl, rfl⟩,
        .of_groups ⟨rfl, rfl, rfl, rfl⟩ rfl rfl, fun _ u hu => ?_, Or.inl rfl,
        fun _ harmed hok => ⟨hok, harmed.1, fun _ => h.initialized⟩⟩, rfl⟩
      rcases List.mem_cons.mp hu with rfl | hu
      · exact Or.inr rfl
      · exact Or.inl hu

/-- The frame of the next task is in place before it is entered. -/
theorem Turn.prepared {s₁ : State} (h : Turn cfg sound s₁ s' xs ys)
    (hhistory : s'.history = s₁.history) (hev : Evolves s s₁) (hok : s₁.fault = .ok)
    (hrestored : s₁.history.restored = s.history.restored ∨
      ∃ g ∈ s.group_list, ¬ .paused ≤ (s.groups g).state ∧ ∃ captured,
        s₁.history.restored =
          s.history.restored ++ [Restoration.mk (s.groups g).handle captured captured])
    (harmed : sound' → s.Armed → sound ∧ s₁.Armed) : Turn cfg sound' s s' xs ys := by
  refine ⟨h.joint, hev.trans h.evolves, h.kept, ?_, fun hs ha _ => ?_⟩
  · rw [hhistory]
    exact hrestored
  · obtain ⟨hsound, ha'⟩ := harmed hs ha
    exact h.sound hsound ha' hok

/-- Words above the guard do not matter for it. -/
theorem Guarded.write (h : s.Guarded) (hsp : stlGuardWords ≤ sp) (frame : List UInt32) :
    Guarded { s with stack := s.stack.write sp frame } := by
  unfold stlGuardWords at hsp
  exact ⟨(Memory.write_before _ _ (by omega)).trans h.1,
    (Memory.write_before _ _ (by omega)).trans h.2⟩

/-- A frame that was written up to the top of the stack. -/
theorem frame_write (base : Memory UInt32) (frame : List UInt32) (hpos : 0 < frame.length)
    (hfits : stlGuardWords + frame.length ≤ cfg.stack_words) (hvalid : cfg.frame_valid frame = true)
    (hstack : s.stack = base.write (cfg.stack_words - frame.length) frame) :
    s.Frame cfg (cfg.stack_words - frame.length) := by
  refine ⟨by omega, by omega, ?_⟩
  have hlength : cfg.stack_words - (cfg.stack_words - frame.length) = frame.length := by omega
  rw [hstack, hlength, Memory.slice_write_self]
  exact hvalid

/-- **The next task**: the head of the queue runs, or a fault is latched. -/
theorem Joint.switchTo (h : s.Joint cfg (t :: xs) none) (hok : s.fault = .ok)
    (hidle : s.current = none) (hinit : s.initialized = true) :
    Turn cfg (port.Commits ∧ cfg.InitialFrame) s
      (s.popped.switchTo cfg port t).1 (t :: xs) xs := by
  rcases h.queued.waits t List.mem_cons_self with
    ⟨hnew, g, howns, hgroup⟩ | ⟨hold, ⟨g, howns, hgroup⟩, r, hrecord, hsaved, hindex, howner⟩
  · set s₁ := s.popped.modify t fun task => { task with quantum_left := cfg.slice_ticks }
    have hsame : Same s.popped s₁ := same_modify _ t rfl
    have hchosen : Chosen cfg s₁ xs t := by
      refine ⟨(h.takeNew hnew).same hsame, h.head_notMem, hok, hidle, hinit, ?_, ?_, g,
        (hsame.owns g t).mpr howns, ?_, h.starting.enabled g howns.1 hgroup⟩
      · rw [hsame.record]
        exact h.record_none (by rw [hnew]; exact nofun) (by rw [hnew]; exact nofun)
      · rw [hsame.task_state]
        show (s.tasks t).state ≠ _
        rw [hnew]
        exact nofun
      · show ¬ GroupState.paused ≤ (s.groups g).state
        rw [hgroup]
        decide
    rw [switchTo_new (s := s.popped) hnew]
    show Turn cfg _ s (enterTask cfg port (s₁.portPrepare cfg).1 t (s₁.portPrepare cfg).2).1 _ _
    cases hframe : cfg.initial_frame with
    | none =>
      have hprepare : s₁.portPrepare cfg = (s₁, none) := by
        unfold portPrepare
        rw [hframe]
      rw [hprepare]
      obtain ⟨hturn, hhistory⟩ := hchosen.enter port none
      refine hturn.prepared hhistory (.of_groups ⟨rfl, rfl, rfl, rfl⟩ rfl rfl) hok (Or.inl rfl)
        fun hs _ => ?_
      obtain ⟨frame, hsome, -⟩ := hs.2
      exact nomatch hframe.symm.trans hsome
    | some frame =>
      have hprepare : s₁.portPrepare cfg =
          ({ s₁ with stack := s₁.stack.write (cfg.stack_words - frame.length) frame },
            some (cfg.stack_words - frame.length)) := by
        unfold portPrepare
        rw [hframe]
      rw [hprepare]
      have hchosen' : Chosen cfg
          { s₁ with stack := s₁.stack.write (cfg.stack_words - frame.length) frame } xs t :=
        hchosen.same ⟨rfl, fun _ => rfl, rfl, fun _ => rfl, rfl, rfl, rfl, rfl, rfl, rfl⟩ rfl
      obtain ⟨hturn, hhistory⟩ := hchosen'.enter port (some (cfg.stack_words - frame.length))
      refine hturn.prepared hhistory (.of_groups ⟨rfl, rfl, rfl, rfl⟩ rfl rfl) hok (Or.inl rfl)
        fun hs harmed => ?_
      obtain ⟨frame', hsome, hpos, hfits, hvalid⟩ := hs.2
      obtain rfl := Option.some.inj (hframe.symm.trans hsome)
      refine ⟨⟨hs.1, _, rfl, frame_write s₁.stack frame hpos hfits hvalid rfl⟩, fun hi => ?_, ?_⟩
      · exact Guarded.write (s := s) (harmed.1 hi) (by omega) frame
      · exact fun hne => absurd hidle hne
  · have hvalid := h.ring
    obtain ⟨hwords, horigin, hguard, hframe⟩ := hvalid.intact r hsaved.1 hsaved.2
    have hrange := hvalid.range hsaved.1
    have hlength : (s.ring.captured r).2.length = (s.ring.records r).words := by
      rw [← hwords, Memory.length_slice]
    have hsp : (s.ring.captured r).1 = cfg.stack_words - (s.ring.captured r).2.length := by omega
    rw [switchTo_old (s := s.popped) hold, snapshotRestore_eq (s := s.popped) hvalid hok hrecord
      hsaved.1 hsaved.2 hindex howner]
    set s₁ : State := { s.popped with
      stack := s.stack.write (s.ring.captured r).1 (s.ring.captured r).2
      history := { s.history with restored := s.history.restored ++
        [Restoration.mk (s.tasks t).owner (s.ring.captured r) (s.ring.captured r)] }
      tasks := (s.modify t fun task => { task with record := none }).tasks
      ring := s.ring.restored cfg r }
    have hself : s₁.tasks t = { s.tasks t with record := none } := Function.update_self t _ _
    have hchosen : Chosen cfg s₁ xs t := by
      refine ⟨h.takeOld hold hrecord ⟨rfl, rfl, rfl, rfl⟩ rfl rfl rfl rfl rfl rfl,
        h.head_notMem, hok, hidle, hinit, ?_, ?_, g, howns, hgroup⟩
      · rw [hself]
      · rw [hself]
        show (s.tasks t).state ≠ _
        rw [hold]
        exact nofun
    obtain ⟨hturn, hhistory⟩ := hchosen.enter port (some (s.ring.captured r).1)
    refine hturn.prepared hhistory (.of_groups ⟨rfl, rfl, rfl, rfl⟩ rfl rfl) hok
      (Or.inr ⟨g, howns.1, hgroup.1, s.ring.captured r, ?_⟩) fun hs harmed => ?_
    · rw [← (h.resident.owned g t howns).2.2]
    · refine ⟨⟨hs.1, _, rfl, ?_⟩, fun hi => ?_, fun hne => absurd hidle hne⟩
      · rw [hsp]
        exact frame_write s.stack _ (by omega) (by omega) hframe (by rw [← hsp])
      · exact Guarded.write (s := s) (harmed.1 hi) hguard _

/-- The loop of `section_stl_switch` passes over no task that waits. -/
theorem Waits.not_passedOver (h : s.Waits cfg t) : ∃ g, s.Owns g t ∧ ¬ s.passedOver t g := by
  rcases h with ⟨hnew, g, howns, hgroup⟩ | ⟨hold, ⟨g, howns, hmay, -⟩, -⟩
  · refine ⟨g, howns, ?_⟩
    unfold passedOver
    rw [hgroup]
    rintro (hle | ⟨hdisabled, -⟩)
    · exact absurd hle (by decide)
    · exact nomatch hdisabled
  · refine ⟨g, howns, ?_⟩
    unfold passedOver
    rintro (hle | ⟨-, hne⟩)
    · exact hmay hle
    · exact hne hold

variable (port) in
theorem Joint.switchLoop (h : s.Joint cfg xs none) (hok : s.fault = .ok) (hidle : s.current = none)
    (hinit : s.initialized = true) (n : ℕ) : ∃ ys,
      Turn cfg (port.Commits ∧ cfg.InitialFrame) s (s.switchLoop cfg port (n + 1)).1 xs ys := by
  unfold State.switchLoop
  cases xs with
  | nil =>
    rw [readyPop_nil h]
    exact ⟨[], (h.turn_native hidle (State.returned port s)).weaken fun hs _ _ => hs.1⟩
  | cons t xs =>
    obtain ⟨g, howns, hnot⟩ := (h.queued.waits t List.mem_cons_self).not_passedOver
    have hfind : s.popped.groupFind (s.popped.tasks t).owner = some g :=
      h.resident.groupFind_owner howns
    have hnot : ¬ s.popped.passedOver t g := hnot
    rw [h.readyPop]
    simp only [hfind, if_neg hnot]
    exact ⟨xs, h.switchTo hok hidle hinit⟩

/-- Reclaiming and releasing lose no task. -/
theorem Joint.switchIn (h : s.Joint cfg xs none) (hidle : s.current = none) (port : Port) : ∃ ys,
    Turn cfg (port.Commits ∧ cfg.InitialFrame) s (s.switchIn cfg port).1 xs ys := by
  have hnative : Turn cfg (port.Commits ∧ cfg.InitialFrame) s (s.returnNative port).1 xs xs :=
    (h.turn_native hidle (State.returned port s)).weaken fun hs _ _ => hs.1
  unfold State.switchIn
  split
  · exact ⟨xs, hnative⟩
  next hready =>
  rw [not_or, not_not, Bool.not_eq_false] at hready
  obtain ⟨hinit, hok⟩ := hready
  split
  · exact ⟨xs, hnative⟩
  · obtain ⟨ys, hjoint, hact⟩ := h.activateDue
    have hreap := hjoint.recordsReap
    have heq : s.activateDue.recordsReap cfg = { s with
        tasks := s.activateDue.tasks
        ready := s.activateDue.ready
        ready_count := s.activateDue.ready_count
        ring := (s.activateDue.ring.reap cfg).1 } := by
      refine (recordsReap_eq hjoint.ring).trans ?_
      rw [hact.eq]
    have hfirst : Turn cfg True s (s.activateDue.recordsReap cfg) xs (xs ++ ys) := by
      refine ⟨hreap, .of_groups ⟨?_, ?_, ?_, ?_⟩ ?_ ?_, fun _ t ht => Or.inl ?_, Or.inl ?_,
        fun _ harmed hok => ?_⟩
      · rw [heq]
      · rw [heq]
      · rw [heq]
      · rw [heq]
      · rw [heq]
      · rw [heq]
      · exact List.mem_append_left _ ht
      · rw [heq]
      · rw [heq]
        exact ⟨hok, harmed⟩
    have hok' : (s.activateDue.recordsReap cfg).fault = .ok := by rw [heq]; exact hok
    have hidle' : (s.activateDue.recordsReap cfg).current = none := by rw [heq]; exact hidle
    have hinit' : (s.activateDue.recordsReap cfg).initialized = true := by rw [heq]; exact hinit
    have hhistory : (s.activateDue.recordsReap cfg).history = s.history := by rw [heq]
    dsimp only
    rw [if_neg (not_not_intro hok')]
    obtain ⟨zs, hloop⟩ := hreap.switchLoop port hok' hidle' hinit' cfg.max_tasks
    exact ⟨zs, (hfirst.trans hhistory hidle' (fun _ => hok') hloop).weaken
      fun hs _ _ => ⟨trivial, hs⟩⟩

end State
end Atoman.SectionStl
