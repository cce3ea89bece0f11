import Atoman.SectionStl.Departure

/-!
# Switches and completions

A whole switch, and the transaction that completes a callback and may start the next one
in its place.
-/

namespace Atoman.SectionStl
namespace State
variable {cfg : Config} {s s' : State} {xs ys : List ℕ} {g t : ℕ} {port : Port}

/-! ## The switch -/

theorem Joint.switchOut (h : s.Joint cfg xs none) (hok : s.fault = .ok) (port : Port)
    (p_saved_sp : Option ℕ) : Departs cfg port s xs p_saved_sp
      (s.switchOut cfg port p_saved_sp) := by
  cases hcurrent : s.current with
  | none =>
    have heq : s.switchOut cfg port p_saved_sp = .ok s := by
      unfold State.switchOut
      rw [hcurrent]
    rw [heq]
    exact ⟨xs, ⟨h, .refl s, fun _ _ ht => Or.inl ht, Or.inl rfl,
      fun _ harmed hok => ⟨hok, harmed⟩⟩, rfl, hcurrent, hok⟩
  | some t =>
    obtain ⟨g, howns, -⟩ := h.placed.current t hcurrent
    have hfind : s.groupFind (s.tasks t).owner = some g := h.resident.groupFind_owner howns
    by_cases hmay : .revoking ≤ (s.groups g).state
    · have hturn := h.departs_revoking port hok hcurrent howns hmay p_saved_sp
      unfold State.switchOut
      simp only [hcurrent, hfind, if_pos hmay]
      exact hturn
    by_cases hrunning : (s.tasks t).state = .running
    · exact h.departs_running hok hcurrent howns hmay hrunning p_saved_sp
    · unfold State.switchOut
      simp only [hcurrent, hfind, if_neg hmay, if_neg hrunning]
      refine h.departs_leave hok fun u hu => ?_
      obtain rfl := Option.some.inj (hcurrent.symm.trans hu)
      exact hrunning

/-- **A switch** keeps the tables and every task. -/
theorem Joint.switch (h : s.Joint cfg xs none) (port : Port) (p_saved_sp : Option ℕ) : ∃ ys,
    Turn cfg (port.Commits ∧ cfg.InitialFrame ∧ s.RunningFrame cfg p_saved_sp) s
      (s.sectionStlSwitch cfg port p_saved_sp).1 xs ys := by
  unfold State.sectionStlSwitch
  split
  · next hfault =>
    have hleave : Joint cfg { s with current := none } xs none :=
      h.fail ⟨rfl, rfl, rfl, rfl⟩ rfl rfl rfl rfl hfault (Or.inl rfl)
    obtain ⟨hjoint, hev, -, hrestored, -⟩ := hleave.turn_native rfl (State.returned port _)
    have hev' : Evolves s { s with current := none } := .of_groups ⟨rfl, rfl, rfl, rfl⟩ rfl rfl
    refine ⟨xs, hjoint, hev'.trans hev, fun _ _ ht => Or.inl ht, hrestored, fun _ _ hok => ?_⟩
    exact absurd hok hfault
  next hok =>
  have hok := not_not.mp hok
  split
  · exact ⟨xs, h, .refl s, fun _ _ ht => Or.inl ht, Or.inl rfl, fun _ harmed hok => ⟨hok, harmed⟩⟩
  · have hout := h.switchOut hok port p_saved_sp
    cases hresult : s.switchOut cfg port p_saved_sp with
    | error result =>
      rw [hresult] at hout
      obtain ⟨ys, hturn⟩ := hout
      exact ⟨ys, hturn.weaken fun hs _ _ => ⟨hs.1, hs.2.2⟩⟩
    | ok s' =>
      rw [hresult] at hout
      obtain ⟨ys, hturn, hhistory, hidle, hok'⟩ := hout
      obtain ⟨zs, hin⟩ := hturn.joint.switchIn hidle port
      exact ⟨zs, (hturn.trans hhistory hidle (fun _ => hok') hin).weaken
        fun hs _ _ => ⟨⟨hs.1, hs.2.2⟩, hs.1, hs.2.1⟩⟩

/-! ## The end of a callback -/

theorem runningTask_eq_some : s.runningTask = some t ↔
    s.current = some t ∧ (s.tasks t).state = .running := by
  unfold runningTask
  cases s.current with
  | none => simp
  | some u =>
    simp only [Option.bind_some, Option.ite_none_right_eq_some, Option.some.injEq]
    constructor
    · rintro ⟨h, rfl⟩
      exact ⟨rfl, h⟩
    · rintro ⟨rfl, h⟩
      exact ⟨h, rfl⟩

/-- `section_stl_entry` behind the release of the tasks that are due: the next callback may
start in place. -/
def inlineNext (cfg : Config) (port : Port) (s : State) (t : ℕ) (p_group : Option ℕ) : State :=
  match s.inlineHead port t with
  | none => s
  | some f =>
    match s.hostCommit port (s.tasks f).owner with
    | (s, false) => s
    | (s, true) =>
      let (_, s) := s.readyPop
      let s := { s with current := some f, slice_start := s.tick_now }.modify f fun task =>
        { task with quantum_left := cfg.slice_ticks, state := .running }
      match p_group with
      | none => s
      | some g => if (s.groups g).state = GroupState.revoking then s.groupCancel cfg g else s

/-- The head of the queue that may start in place. -/
theorem inlineHead_eq_some {f : ℕ} (h : s.inlineHead port t = some f) : s.ready.first = some f ∧
    (s.tasks f).state = .new ∧ ∃ g, s.groupFind (s.tasks f).owner = some g ∧
      (s.groups g).state = .enabled := by
  unfold inlineHead at h
  split at h
  · cases hfirst : s.ready.first with
    | none => simp [hfirst] at h
    | some u =>
      simp only [hfirst] at h
      split at h
      · next hnew =>
        cases hfind : s.groupFind (s.tasks u).owner with
        | none => simp [hfind] at h
        | some g =>
          simp only [hfind] at h
          split at h
          · next henabled =>
            obtain rfl := Option.some.inj h
            exact ⟨rfl, hnew, g, hfind, henabled⟩
          · cases h
      · cases h
  · cases h

/-- `section_stl_entry` behind the selection of the next callback. -/
def startInline (cfg : Config) (s : State) (f : ℕ) : State :=
  { s.popped with current := some f, slice_start := s.tick_now }.modify f fun task =>
    { task with quantum_left := cfg.slice_ticks, state := .running }

theorem Joint.startInline {f : ℕ} (h : s.Joint cfg (f :: xs) none) (hok : s.fault = .ok)
    (hidle : ∀ u, s.current = some u → (s.tasks u).state ≠ .running)
    (hnew : (s.tasks f).state = .new) (hfind : s.groupFind (s.tasks f).owner = some g)
    (henabled : (s.groups g).state = .enabled) : (s.startInline cfg f).Joint cfg xs none := by
  obtain ⟨hg, howner⟩ := groupFind_some hfind
  obtain ⟨k, howns, -⟩ := (h.queued.waits f List.mem_cons_self).owned
  obtain rfl : g = k := h.resident.eq_of_handle hg howns.1
    (howner.trans (h.resident.owned k f howns).2.2)
  have hrun := (h.takeNew hnew).run h.head_notMem hok
    (h.record_none (by rw [hnew]; exact nofun) (by rw [hnew]; exact nofun))
    (by show (s.tasks f).state ≠ _; rw [hnew]; exact nofun) howns
    ⟨h.starting.enabled g hg henabled, fun heq => (nomatch henabled.symm.trans heq),
      fun heq => (nomatch henabled.symm.trans heq)⟩ hidle
    (f := fun task => { task with quantum_left := cfg.slice_ticks, state := .running }) rfl
  exact hrun.same ⟨rfl, fun _ => rfl, rfl, fun _ => rfl, rfl, rfl, rfl, rfl, rfl, rfl⟩

/-- **The next callback** starts in place of the one that completed. -/
theorem Joint.inlineNext (h : s.Joint cfg xs none) (port : Port) (t : ℕ) (hok : s.fault = .ok)
    (hidle : ∀ u, s.current = some u → (s.tasks u).state ≠ .running) (hcurrent : s.current ≠ none)
    (hg : g ∈ s.group_list) :
    ∃ ys, Turn cfg port.Commits s (s.inlineNext cfg port t (some g)) xs ys := by
  unfold State.inlineNext
  cases hhead : s.inlineHead port t with
  | none =>
    exact ⟨xs, h, .refl s, fun _ _ ht => Or.inl ht, Or.inl rfl, fun _ harmed hok => ⟨hok, harmed⟩⟩
  | some f =>
    obtain ⟨hfirst, hnew, k, hfind, henabled⟩ := inlineHead_eq_some hhead
    dsimp only
    by_cases hcommit : port.host_owner_commit (s.tasks f).owner = false
    · have hhost : s.hostCommit port (s.tasks f).owner = (s.corrupt, false) := if_pos hcommit
      rw [hhost]
      refine ⟨xs, h.fail ⟨rfl, rfl, rfl, rfl⟩ rfl rfl rfl rfl nofun (Or.inr ⟨rfl, hidle⟩),
        .of_groups ⟨rfl, rfl, rfl, rfl⟩ rfl rfl, fun _ _ ht => Or.inl ht,
        Or.inl rfl, fun hs _ _ => ?_⟩
      exact nomatch hcommit.symm.trans (hs _)
    · have hhost : s.hostCommit port (s.tasks f).owner = (s, true) := if_neg hcommit
      obtain ⟨zs, rfl⟩ : ∃ zs, xs = f :: zs := by
        have hhead := h.queued.holds.first.symm.trans hfirst
        cases xs with
        | nil => exact nomatch hhead
        | cons x xs => exact ⟨xs, congrArg (· :: xs) (Option.some.inj hhead)⟩
      rw [hhost]
      simp only [h.readyPop]
      change ∃ ys, Turn cfg port.Commits s
        (if ((s.startInline cfg f).groups g).state = GroupState.revoking then
          (s.startInline cfg f).groupCancel cfg g else s.startInline cfg f) (f :: zs) ys
      have hstart := h.startInline hok hidle hnew hfind henabled
      have hev : Evolves s (s.startInline cfg f) := .of_groups ⟨rfl, rfl, rfl, rfl⟩ rfl rfl
      have hkept : ∀ u ∈ f :: zs, u ∈ zs ∨ some f = some u := by
        intro u hu
        rcases List.mem_cons.mp hu with rfl | hu
        · exact Or.inr rfl
        · exact Or.inl hu
      split
      · next hrevoking =>
        have hframe := cancelled hstart.ring g
        have hcancel := hstart.groupCancel hg
        rw [hstart.filter_revoking hg (by rw [hrevoking]; exact Nat.le_refl _)] at hcancel
        refine ⟨zs, hcancel, hev.trans hframe.evolves, fun _ u hu => ?_, Or.inl ?_,
          fun _ harmed hok => ⟨?_, ?_, ?_⟩⟩
        · rw [hframe.eq]
          exact hkept u hu
        · rw [hframe.eq]
          rfl
        · rw [hframe.eq]
          exact hok
        · rw [hframe.eq]
          exact harmed.1
        · rw [hframe.eq]
          exact fun _ => harmed.2 hcurrent
      · exact ⟨zs, hstart, hev, fun _ => hkept, Or.inl rfl,
          fun _ harmed hok => ⟨hok, harmed.1, fun _ => harmed.2 hcurrent⟩⟩

/-- The task whose callback has returned, before the tasks that are due are released. -/
def completed (s : State) (t : ℕ) (outcome_running : Bool) : State :=
  let outcome_running :=
    outcome_running && (s.tasks t).p_func.isNone && (s.tasks t).p_step_func.isSome
  let p_group := s.groupFind (s.tasks t).owner
  let s := s.modify t fun task => { task with state := .sleeping }
  match p_group with
  | none => s
  | some g =>
    if (s.groups g).state = GroupState.enabled ∧ outcome_running = true then
      (s.modify t fun task => { task with state := .new }).readyPush t
    else s

theorem entryComplete_eq {t : ℕ} (h : s.runningTask = some t) (outcome_running : Bool) :
    s.entryComplete cfg port outcome_running =
      (s.completed t outcome_running).activateDue.inlineNext cfg port t
        (s.groupFind (s.tasks t).owner) := by
  unfold entryComplete
  rw [h]
  rfl

/-- The callback is over, and may be due again at once. -/
theorem Joint.completed (h : s.Joint cfg xs none) (htask : s.runningTask = some t)
    (outcome_running : Bool) : ∃ ys, (s.completed t outcome_running).Joint cfg (xs ++ ys) none ∧
      Activated (s.modify t fun task => { task with state := .sleeping })
        (s.completed t outcome_running) := by
  obtain ⟨hcurrent, hrunning⟩ := runningTask_eq_some.mp htask
  obtain ⟨g, howns, -⟩ := h.placed.current t hcurrent
  have hfind : s.groupFind (s.tasks t).owner = some g := h.resident.groupFind_owner howns
  have hnot : t ∉ xs := by
    intro ht
    have := (h.queued.waits t ht).state
    rw [hrunning] at this
    rcases this with h | h <;> exact nomatch h
  unfold State.completed
  simp only [hfind]
  set s₁ := s.modify t fun task => { task with state := .sleeping }
  have hsleep : s₁.Joint cfg xs none :=
    h.sleep hnot (by rw [hrunning]; exact nofun) (by rw [hrunning]; exact nofun)
  have hself : s₁.tasks t = { s.tasks t with state := .sleeping } := modify_tasks_self _ _ _
  generalize (outcome_running && (s.tasks t).p_func.isNone && (s.tasks t).p_step_func.isSome) =
    again
  by_cases hagain : (s₁.groups g).state = .enabled ∧ again = true
  · refine ⟨[t], ?_⟩
    rw [if_pos hagain]
    refine ⟨hsleep.release (by rw [hself]) howns hagain.1 rfl, ?_, fun u hu => ?_, fun u => ?_⟩
    · unfold State.readyPush
      split <;> rfl
    · have hut : u ≠ t := fun heq => hu (by rw [heq, hself])
      rw [readyPush_tasks, modify_tasks_of_ne _ _ hut]
    · rw [readyPush_tasks]
      by_cases hut : u = t
      · rw [hut, modify_tasks_self]
        exact Or.inr rfl
      · rw [modify_tasks_of_ne _ _ hut]
        exact Or.inl rfl
  · refine ⟨[], ?_⟩
    rw [if_neg hagain, List.append_nil]
    exact ⟨hsleep, .refl s₁⟩

/-- **The end of a callback** keeps the tables and every task. -/
theorem Joint.complete (h : s.Joint cfg xs none) (port : Port) (outcome_running : Bool) : ∃ ys,
    Turn cfg port.Commits s (s.entryComplete cfg port outcome_running) xs ys := by
  cases htask : s.runningTask with
  | none =>
    have heq : s.entryComplete cfg port outcome_running = s := by
      unfold State.entryComplete
      rw [htask]
    rw [heq]
    exact ⟨xs, h, .refl s, fun _ _ ht => Or.inl ht, Or.inl rfl, fun _ harmed hok => ⟨hok, harmed⟩⟩
  | some t =>
    obtain ⟨hcurrent, hrunning⟩ := runningTask_eq_some.mp htask
    obtain ⟨g, howns, -⟩ := h.placed.current t hcurrent
    have hok := h.placed.running t hcurrent hrunning
    have hfind : s.groupFind (s.tasks t).owner = some g := h.resident.groupFind_owner howns
    have hself : (s.modify t fun task => { task with state := .sleeping }).tasks t =
        { s.tasks t with state := .sleeping } := modify_tasks_self _ _ _
    obtain ⟨ys, hjoint, hact⟩ := h.completed htask outcome_running
    rw [entryComplete_eq htask, hfind]
    set s₂ := s.completed t outcome_running
    obtain ⟨zs, hdue, hact'⟩ := hjoint.activateDue
    have hact := hact.trans hact'
    have hidle : ∀ u, s₂.activateDue.current = some u →
        (s₂.activateDue.tasks u).state ≠ .running := by
      intro u hu
      rw [hact.eq] at hu
      obtain rfl : t = u := Option.some.inj (hcurrent.symm.trans hu)
      rcases hact.states t with hsame | hnew
      · rw [hsame, hself]
        exact nofun
      · rw [hnew]
        exact nofun
    obtain ⟨ws, hturn⟩ := hdue.inlineNext port t
      (by rw [hact.eq]; exact hok)
        hidle (by rw [hact.eq]; exact fun hne => nomatch hcurrent.symm.trans hne)
      (by rw [hact.groups.group_list]; exact howns.1)
    have hev : Evolves s s₂.activateDue := by
      refine .of_groups ⟨?_, ?_, ?_, ?_⟩ ?_ ?_
      all_goals rw [hact.eq]
      all_goals rfl
    refine ⟨ws, hturn.joint, hev.trans hturn.evolves, fun hok u hu => ?_, ?_,
      fun hs harmed hok => ?_⟩
    · exact hturn.kept hok u (List.mem_append_left _ (List.mem_append_left _ hu))
    · rcases hturn.restored with hsame | ⟨k, hk, hmay, captured, hnew⟩
      · refine Or.inl (hsame.trans ?_)
        rw [hact.eq]
        rfl
      · refine Or.inr ⟨k, hev.group_list ▸ hk, hev.may_run hmay, captured, hnew.trans ?_⟩
        rw [hev.handle, hact.eq]
        rfl
    · refine hturn.sound hs ?_ (by rw [hact.eq]; exact hok)
      rw [hact.eq]
      exact harmed

end State
end Atoman.SectionStl
