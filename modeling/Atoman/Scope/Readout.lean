import Atoman.Lib.Transition
import Atoman.Scope.Announce
import Mathlib.Logic.Function.Basic

/-!
# Reading samples out

A query names a sample by its place in time, and the service computes the column from
the trigger and the number of samples after it. The columns hold the newest samples,
sample `j` in column `j % buffer_size`.
-/

namespace Atoman.Scope
open Lib (Memory)
universe u
variable {α : Type u}

/-- The next sampling call stores the sample that meets the trigger. -/
def Core.Meets (g : Geometry) (c : Core α) (values : ℕ → α) : Prop :=
  c.state ≠ .triggered ∧ (c.run g values).state = .triggered

instance (g : Geometry) (c : Core α) (values : ℕ → α) : Decidable (c.Meets g values) :=
  inferInstanceAs (Decidable (_ ∧ _))

/-- A scope, and what it has sampled since the last start. -/
structure History (α : Type u) where
  device : Device α
  /-- the samples, the oldest first -/
  samples : List (ℕ → α)
  /-- which of them met the trigger -/
  trigger : Option ℕ
  /-- the capture has taken its last sample -/
  ended : Bool

namespace History

/-- A start begins anew. -/
def anew (d : Device α) : History α := ⟨d, [], none, false⟩

/-- An event. -/
def exec (g : Geometry) (s : History α) (e : Event α) : History α :=
  let device := s.device.exec g e
  match e with
  | .run values =>
    if s.device.core.active then
      { device := device
        samples := s.samples ++ [values]
        trigger := if s.device.core.Meets g values then some s.samples.length else s.trigger
        ended := s.ended || decide (s.device.core.Finishes g) }
    else { s with device := device }
  | .start => if s.device.core.state = .idle then .anew device else { s with device := device }
  | .startRequest =>
    if s.device.core.state = .idle then .anew device else { s with device := device }
  | _ => { s with device := device }

end History

/-- All runs. -/
def histories (g : Geometry) : Lib.Transition (History α) where
  init s := ∃ buffer, s = .anew (.define buffer)
  next s t := ∃ e, t = s.exec g e

/-- The sample of the newest `buffer_size` ones that belongs at a logical index. -/
structure History.InOrder (g : Geometry) (s : History α) (q : SampleQuery) : Prop where
  chronological : ∀ j (h : j < s.samples.length),
    q.sample_index + s.samples.length = j + g.buffer_size →
    (s.device.sampleQueryAct g q).values = (List.range g.var_count).map s.samples[j]
  triggered : s.ended = true → q.sample_index = Device.triggerDisplayIndex g →
    ∃ k, s.trigger = some k ∧ ∃ h : k < s.samples.length,
      (s.device.sampleQueryAct g q).values = (List.range g.var_count).map s.samples[k]

/-- **In order**: what a NORMAL query is answered is the sample at its place in time. -/
def History.ReadOut (g : Geometry) (s : History α) : Prop :=
  ∀ q : SampleQuery, q.read_mode = .normal → (s.device.sampleQueryAct g q).status = .ok →
    s.InOrder g q

/-- What registration guarantees: the macros take ten variables at most, and a buffer of
floats that fits a 32-bit address space is smaller than this. -/
structure Geometry.Registered (g : Geometry) : Prop where
  nonempty : 0 < g.buffer_size
  post : g.trigger_post_cnt < g.buffer_size
  vars : g.var_count ≤ Device.varCountMax
  rows : g.var_count * g.buffer_size ≤ 2 ^ 32
  columns : 2 * g.buffer_size ≤ 2 ^ 32

/-- The condition: a capture that has ended by its trigger had samples to take behind
it, and another one has no samples, or as many as if it had. -/
def History.Placed (g : Geometry) (s : History α) : Prop :=
  (s.ended = true → 0 < g.trigger_post_cnt) ∧
    (s.ended = false → s.samples = [] ∨
      s.samples.length % g.buffer_size =
        (s.device.core.trigger_index + g.trigger_post_cnt + 1) % g.buffer_size)

/-! ## Columns -/

/-- A cell is found by its column and its row. -/
theorem cell_inj {B c d i n : ℕ} (hc : c < B) (hd : d < B) (h : c + i * B = d + n * B) :
    c = d ∧ i = n := by
  have hcol : c = d := by
    have := congrArg (· % B) h
    simpa only [Nat.add_mul_mod_self_right, Nat.mod_eq_of_lt hc, Nat.mod_eq_of_lt hd] using this
  subst hcol
  exact ⟨rfl, Nat.eq_of_mul_eq_mul_right (by omega) (Nat.add_left_cancel h)⟩

/-- Storing a column changes its cells only. -/
theorem storeColumn_apply {g : Geometry} (hg : g.Registered) {column c : ℕ}
    (hcolumn : column < g.buffer_size) (hc : c < g.buffer_size) (values : ℕ → α)
    (buffer : Memory α) {i : ℕ} (hi : i < g.var_count) :
    Core.storeColumn g column values buffer (c + i * g.buffer_size) =
      if c = column then values i else buffer (c + i * g.buffer_size) := by
  have hrows : ∀ n, n ≤ g.var_count →
      (List.range n).foldl
        (fun m i => Function.update m (column + i * g.buffer_size % 2 ^ 32) (values i)) buffer
        (c + i * g.buffer_size) =
      if c = column ∧ i < n then values i else buffer (c + i * g.buffer_size) := by
    intro n
    induction n with
    | zero => intro _; simp
    | succ n ih =>
      intro hn
      have hoff : n * g.buffer_size < 2 ^ 32 :=
        Nat.lt_of_lt_of_le (Nat.mul_lt_mul_of_pos_right (by omega) hg.nonempty) hg.rows
      rw [List.range_succ, List.foldl_append, List.foldl_cons, List.foldl_nil,
        Function.update_apply, ih (by omega), Nat.mod_eq_of_lt hoff]
      by_cases hcell : c + i * g.buffer_size = column + n * g.buffer_size
      · obtain ⟨rfl, rfl⟩ := cell_inj hc hcolumn hcell
        rw [if_pos rfl, if_pos ⟨rfl, Nat.lt_succ_self _⟩]
      · rw [if_neg hcell]
        have hne : c = column → i ≠ n := by
          rintro rfl rfl
          exact hcell rfl
        by_cases hin : c = column ∧ i < n
        · rw [if_pos hin, if_pos ⟨hin.1, by omega⟩]
        · rw [if_neg hin, if_neg]
          rintro ⟨rfl, hlt⟩
          exact hin ⟨rfl, by have := hne rfl; omega⟩
  rw [Core.storeColumn, hrows _ (Nat.le_refl _)]
  simp only [hi, and_true]

/-- The columns hold the newest samples. -/
def Holds (g : Geometry) (buffer : Memory α) (samples : List (ℕ → α)) : Prop :=
  ∀ j (h : j < samples.length), samples.length ≤ j + g.buffer_size → ∀ i < g.var_count,
    buffer (j % g.buffer_size + i * g.buffer_size) = samples[j] i

/-- Two of the newest samples are in different columns. -/
theorem column_ne {B j N : ℕ} (hj : j < N) (hnew : N < j + B) : j % B ≠ N % B := by
  intro h
  have hzero : (N - j) % B = 0 := Nat.sub_mod_eq_zero_of_mod_eq h.symm
  rw [Nat.mod_eq_of_lt (by omega)] at hzero
  omega

/-- The next sample takes the column of the oldest one. -/
theorem Holds.store {g : Geometry} (hg : g.Registered) {buffer : Memory α}
    {samples : List (ℕ → α)} (h : Holds g buffer samples) (values : ℕ → α) :
    Holds g (Core.storeColumn g (samples.length % g.buffer_size) values buffer)
      (samples ++ [values]) := by
  intro j hj hnew i hi
  rw [List.length_append, List.length_singleton] at hj hnew
  rw [storeColumn_apply hg (Nat.mod_lt _ hg.nonempty) (Nat.mod_lt _ hg.nonempty) _ _ hi]
  by_cases hlast : j = samples.length
  · subst hlast
    rw [if_pos rfl, List.getElem_concat_length rfl]
  · rw [if_neg (column_ne (by omega) (by omega)), List.getElem_append_left (by omega)]
    exact h j (by omega) (by omega) i hi

/-! ## The capture -/

/-- The scope when a sampling call stores its sample: a capture that was armed has
begun. -/
def Core.begun (c : Core α) : Core α :=
  if c.state = .idle then { c with state := .running, write_index := 0, trigger_counter := 0 }
  else c

namespace Core
variable {g : Geometry} {c : Core α} {values : ℕ → α}

theorem active_iff : c.active = true ↔ c.is_running = true ∨ c.state ≠ .idle := by
  simp only [active, Bool.or_eq_true, decide_eq_true_eq]

/-- A sampling call of an active scope stores a sample. -/
theorem run_of_active (h : c.active = true) : c.run g values = c.begun.sample g values := by
  unfold run begun
  by_cases hstate : c.state = .idle
  · have hrunning : c.is_running = true := (active_iff.mp h).resolve_right (not_not_intro hstate)
    rw [if_pos hstate, if_pos hrunning, if_pos hstate]
  · rw [if_neg hstate, if_neg hstate]

theorem run_of_not_active (h : ¬ c.active = true) : c.run g values = c := by
  rw [active_iff] at h
  push Not at h
  exact run_of_idle g values h.2 (Bool.eq_false_iff.mpr h.1)

@[simp] theorem begun_buffer : c.begun.buffer = c.buffer := by
  unfold begun
  split <;> rfl

@[simp] theorem begun_trigger_index : c.begun.trigger_index = c.trigger_index := by
  unfold begun
  split <;> rfl

theorem begun_of_triggered (h : c.state = .triggered) : c.begun = c := by
  rw [begun, if_neg (by rw [h]; exact nofun)]

theorem begun_state_of_ne (h : c.state ≠ .triggered) : c.begun.state = .running := by
  unfold begun
  split
  · rfl
  · cases hstate : c.state with
    | idle => contradiction
    | running => rfl
    | triggered => contradiction

@[simp] theorem sample_buffer :
    (c.sample g values).buffer = storeColumn g c.write_index values c.buffer := by
  simp only [sample]
  repeat' split
  all_goals rfl

/-- The next column. -/
theorem sample_write_index (g : Geometry) (c : Core α) (values : ℕ → α) :
    (c.sample g values).write_index =
    if g.buffer_size ≤ c.write_index + 1 then 0 else c.write_index + 1 := rfl

/-- The sample that meets the trigger, and one before it. -/
theorem sample_of_running (g : Geometry) (values : ℕ → α) (h : c.state = .running) :
    (c.sample g values).trigger_counter = c.trigger_counter ∧
    (((c.sample g values).state = .triggered ∧ (c.sample g values).trigger_index = c.write_index) ∨
      ((c.sample g values).state = .running ∧
        (c.sample g values).trigger_index = c.trigger_index)) := by
  simp only [sample]
  by_cases htrigger : c.state = .running ∧ c.is_triggered = true
  · rw [if_pos htrigger]
    exact ⟨rfl, Or.inl ⟨rfl, rfl⟩⟩
  · have hnot : ¬ c.state = .triggered := by rw [h]; simp
    rw [if_neg htrigger, if_neg hnot]
    exact ⟨rfl, Or.inr ⟨h, rfl⟩⟩

/-- A sample behind the trigger. -/
theorem sample_of_triggered (g : Geometry) (values : ℕ → α) (h : c.state = .triggered) :
    (c.sample g values).trigger_index = c.trigger_index ∧
    if c.Finishes g then
      (c.sample g values).state = .idle ∧ (c.sample g values).is_running = false
    else (c.sample g values).state = .triggered ∧
      (c.sample g values).trigger_counter = c.trigger_counter + 1 := by
  have hnot : ¬ (c.state = .running ∧ c.is_triggered = true) := by simp [h]
  simp only [sample]
  rw [if_neg hnot, if_pos h]
  by_cases hcount : g.trigger_post_cnt ≤ c.trigger_counter + 1
  · rw [if_pos hcount, if_pos ⟨h, hcount⟩]
    exact ⟨rfl, rfl, rfl⟩
  · rw [if_neg hcount, if_neg fun hfin => hcount hfin.2]
    exact ⟨rfl, h, rfl⟩

end Core

/-- The number of samples that a capture takes behind its trigger: at least one. -/
def Geometry.behind (g : Geometry) : ℕ := max g.trigger_post_cnt 1

/-- Sample `k` met the trigger, and `n` samples followed. -/
structure History.Met (g : Geometry) (s : History α) (k n : ℕ) : Prop where
  trigger : s.trigger = some k
  index : s.device.core.trigger_index = k % g.buffer_size
  count : s.samples.length = k + 1 + n

/-- What holds in every run. -/
structure History.Inv (g : Geometry) (s : History α) : Prop where
  bounded : s.device.core.trigger_index < g.buffer_size
  holds : Holds g s.device.core.buffer s.samples
  column : s.device.core.state ≠ .idle →
    s.device.core.write_index = s.samples.length % g.buffer_size
  armed : s.device.core.state = .idle → s.device.core.is_running = true → s.samples = []
  running : s.device.core.state = .running → s.device.core.trigger_counter = 0
  triggered : s.device.core.state = .triggered →
    (∃ k, s.Met g k s.device.core.trigger_counter) ∧ s.device.core.trigger_counter < g.behind
  ended : s.ended = true → s.device.core.state = .idle ∧ s.device.core.is_running = false ∧
    ∃ k, s.Met g k g.behind

/-- The next column of a ring. -/
theorem next_column {B : ℕ} (hB : 0 < B) (N : ℕ) :
    (if B ≤ N % B + 1 then 0 else N % B + 1) = (N + 1) % B := by
  have hlt := Nat.mod_lt N hB
  rw [← Nat.mod_add_mod]
  split
  · have heq : N % B + 1 = B := by omega
    rw [heq, Nat.mod_self]
  · have hfits : N % B + 1 < B := by omega
    rw [Nat.mod_eq_of_lt hfits]

namespace History.Inv
variable {g : Geometry} {s : History α}

theorem anew {d : Device α} (h : d.core.state = .idle)
    (hindex : d.core.trigger_index < g.buffer_size) :
    (History.anew d).Inv g where
  bounded := hindex
  holds := fun _ hj => absurd hj (Nat.not_lt_zero _)
  column := fun hstate => absurd h hstate
  armed := fun _ _ => rfl
  running := fun hstate => by
    have hstate : d.core.state = .running := hstate
    rw [h] at hstate
    exact nomatch hstate
  triggered := fun hstate => by
    have hstate : d.core.state = .triggered := hstate
    rw [h] at hstate
    exact nomatch hstate
  ended := fun hended => nomatch hended

/-- Events that leave the core as it is, up to its trigger request. -/
theorem keep (h : s.Inv g) {d : Device α} (b : Bool)
    (hcore : d.core = { s.device.core with is_triggered := b }) :
    History.Inv g { s with device := d } := by
  constructor
  · simpa only [hcore] using h.bounded
  · simpa only [hcore] using h.holds
  · simpa only [hcore] using h.column
  · simpa only [hcore] using h.armed
  · simpa only [hcore] using h.running
  · simp only [hcore]
    intro hstate
    obtain ⟨⟨k, hk⟩, hlt⟩ := h.triggered hstate
    exact ⟨⟨k, hk.trigger, by simpa only [hcore] using hk.index, hk.count⟩, hlt⟩
  · simp only [hcore]
    intro hended
    obtain ⟨hstate, hrunning, k, hk⟩ := h.ended hended
    exact ⟨hstate, hrunning, k, hk.trigger, by simpa only [hcore] using hk.index, hk.count⟩

/-- Events that end the capture, whatever they make of the write position. -/
theorem halt (h : s.Inv g) {d : Device α} (hstate : d.core.state = .idle)
    (hrunning : d.core.is_running = false) (hbuffer : d.core.buffer = s.device.core.buffer)
    (hindex : d.core.trigger_index = s.device.core.trigger_index) :
    History.Inv g { s with device := d } := by
  constructor
  · exact lt_of_eq_of_lt hindex h.bounded
  · simpa only [hbuffer] using h.holds
  · intro hne
    exact absurd hstate hne
  · intro _ hr
    exact nomatch hr.symm.trans hrunning
  · intro hr
    exact nomatch hstate.symm.trans hr
  · intro ht
    exact nomatch hstate.symm.trans ht
  · intro hended
    obtain ⟨-, -, k, hk⟩ := h.ended hended
    exact ⟨hstate, hrunning, k, hk.trigger, hindex.trans hk.index, hk.count⟩

/-- The column that a sampling call writes. -/
theorem begun_write_index (h : s.Inv g) (hactive : s.device.core.active = true) :
    s.device.core.begun.write_index = s.samples.length % g.buffer_size := by
  unfold Core.begun
  split
  · next hstate =>
    have hrunning := (Core.active_iff.mp hactive).resolve_right (not_not_intro hstate)
    rw [h.armed hstate hrunning]
    exact (Nat.zero_mod _).symm
  · next hstate => exact h.column hstate

/-- No sample of the capture is behind its trigger yet. -/
theorem begun_trigger_counter (h : s.Inv g) (hstate : s.device.core.state ≠ .triggered) :
    s.device.core.begun.trigger_counter = 0 := by
  unfold Core.begun
  split
  · rfl
  · next hidle =>
    cases hcase : s.device.core.state with
    | idle => contradiction
    | running => exact h.running hcase
    | triggered => contradiction

/-- A sample before the trigger, or the one that meets it. -/
theorem run_before (hg : g.Registered) (h : s.Inv g) (values : ℕ → α)
    (hactive : s.device.core.active = true) (hstate : s.device.core.state ≠ .triggered) :
    (s.exec g (.run values)).Inv g := by
  have hcolumn := h.begun_write_index hactive
  have hended : s.ended = false := by
    refine Bool.eq_false_iff.mpr fun hended => ?_
    obtain ⟨hidle, hrunning, -⟩ := h.ended hended
    rw [Core.active_iff, hidle, hrunning] at hactive
    simp at hactive
  have hfin : ¬ s.device.core.Finishes g := fun hfin => hstate hfin.1
  have hzero := h.begun_trigger_counter hstate
  obtain ⟨hcounter, hphase⟩ :=
    Core.sample_of_running g values (Core.begun_state_of_ne hstate)
  have hnext := Core.sample_write_index g s.device.core.begun values
  rw [hcolumn, next_column hg.nonempty] at hnext
  have hstored : Holds g (s.device.core.begun.sample g values).buffer (s.samples ++ [values]) := by
    rw [Core.sample_buffer, hcolumn, Core.begun_buffer]
    exact h.holds.store hg values
  simp only [exec, if_pos hactive, Device.exec, Core.Meets, Core.run_of_active hactive, hended,
    hfin, decide_false, Bool.or_false]
  obtain ⟨hmet, hindex⟩ | ⟨hrunning, hindex⟩ := hphase
  · rw [if_pos ⟨hstate, hmet⟩]
    refine ⟨?_, hstored, fun _ => ?_, fun hidle => ?_, fun hr => ?_, fun _ => ?_,
      fun he => by cases he⟩
    · show _ < _
      rw [hindex, hcolumn]
      exact Nat.mod_lt _ hg.nonempty
    · rw [List.length_append]
      exact hnext
    · cases hmet.symm.trans hidle
    · cases hmet.symm.trans hr
    · refine ⟨⟨s.samples.length, rfl, hindex.trans hcolumn, ?_⟩, ?_⟩
      · rw [List.length_append, hcounter, hzero]
        rfl
      · show _ < _
        rw [hcounter, hzero, Geometry.behind]
        omega
  · have hnot : ¬ (s.device.core.state ≠ .triggered ∧
        (s.device.core.begun.sample g values).state = .triggered) := by
      rw [hrunning]
      exact fun hboth => by cases hboth.2
    rw [if_neg hnot]
    refine ⟨?_, hstored, fun _ => ?_, fun hidle => ?_, fun _ => ?_, fun ht => ?_,
      fun he => by cases he⟩
    · show _ < _
      rw [hindex, Core.begun_trigger_index]
      exact h.bounded
    · rw [List.length_append]
      exact hnext
    · cases hrunning.symm.trans hidle
    · exact hcounter.trans hzero
    · cases hrunning.symm.trans ht

/-- A sample behind the trigger. -/
theorem run_behind (hg : g.Registered) (h : s.Inv g) (values : ℕ → α)
    (hstate : s.device.core.state = .triggered) : (s.exec g (.run values)).Inv g := by
  have hne : s.device.core.state ≠ .idle := by rw [hstate]; simp
  have hactive : s.device.core.active = true := Core.active_iff.mpr (Or.inr hne)
  have hcolumn := h.column hne
  have hmeets : ¬ s.device.core.Meets g values := fun hmeets => hmeets.1 hstate
  obtain ⟨⟨k, hk⟩, hlt⟩ := h.triggered hstate
  obtain ⟨hindex, hphase⟩ := Core.sample_of_triggered g values hstate
  have hnext := Core.sample_write_index g s.device.core values
  rw [hcolumn, next_column hg.nonempty] at hnext
  have hstored : Holds g (s.device.core.sample g values).buffer (s.samples ++ [values]) := by
    rw [Core.sample_buffer, hcolumn]
    exact h.holds.store hg values
  have hended : s.ended = false := by
    refine Bool.eq_false_iff.mpr fun hended => ?_
    exact hne (h.ended hended).1
  simp only [exec, if_pos hactive, if_neg hmeets, Device.exec, Core.run_of_active hactive,
    Core.begun_of_triggered hstate, hended, Bool.false_or]
  by_cases hfin : s.device.core.Finishes g
  · obtain ⟨hidle, hrunning⟩ := (if_pos hfin).mp hphase
    have hlast : s.device.core.trigger_counter + 1 = g.behind := by
      have := hfin.2
      unfold Geometry.behind at hlt ⊢
      omega
    refine ⟨lt_of_eq_of_lt hindex h.bounded, hstored, fun hn => absurd hidle hn, fun _ hr => ?_,
      fun hr => ?_, fun ht => ?_, fun _ =>
        ⟨hidle, hrunning, k, hk.trigger, hindex.trans hk.index, ?_⟩⟩
    · cases hr.symm.trans hrunning
    · cases hidle.symm.trans hr
    · cases hidle.symm.trans ht
    · rw [List.length_append, hk.count, ← hlast]
      rfl
  · obtain ⟨htriggered, hcounter⟩ := (if_neg hfin).mp hphase
    have hmore : s.device.core.trigger_counter + 1 < g.behind := by
      have hcount : ¬ g.trigger_post_cnt ≤ s.device.core.trigger_counter + 1 :=
        fun hcount => hfin ⟨hstate, hcount⟩
      unfold Geometry.behind
      omega
    refine ⟨lt_of_eq_of_lt hindex h.bounded, hstored, fun _ => ?_, fun hidle => ?_, fun hr => ?_,
      fun _ => ⟨⟨k, hk.trigger, hindex.trans hk.index, ?_⟩, ?_⟩, fun he => ?_⟩
    · rw [List.length_append]
      exact hnext
    · cases htriggered.symm.trans hidle
    · cases htriggered.symm.trans hr
    · rw [List.length_append, hk.count, hcounter]
      rfl
    · show _ < _
      rw [hcounter]
      exact hmore
    · exact absurd (of_decide_eq_true he) hfin

/-- A sampling call. -/
theorem run (hg : g.Registered) (h : s.Inv g) (values : ℕ → α) :
    (s.exec g (.run values)).Inv g := by
  by_cases hactive : s.device.core.active = true
  · by_cases hstate : s.device.core.state = .triggered
    · exact h.run_behind hg values hstate
    · exact h.run_before hg values hactive hstate
  · simp only [exec, if_neg hactive, Device.exec, Core.run_of_not_active hactive]
    exact h

/-- A start. -/
theorem start (h : s.Inv g) {d : Device α} (hidle : s.device.core.state = .idle →
      d.core.state = .idle ∧ d.core.trigger_index = s.device.core.trigger_index)
    (hkeep : s.device.core.state ≠ .idle → d.core = s.device.core) :
    (if s.device.core.state = .idle then History.anew d else { s with device := d }).Inv g := by
  split
  · next hstate =>
    obtain ⟨hidle, hindex⟩ := hidle hstate
    exact anew hidle (lt_of_eq_of_lt hindex h.bounded)
  · next hstate => exact h.keep s.device.core.is_triggered (hkeep hstate)

/-- Every event keeps the invariant. -/
theorem exec (hg : g.Registered) (h : s.Inv g) (e : Event α) : (s.exec g e).Inv g := by
  have htrigger : s.device.core.trigger = { s.device.core with
      is_triggered := s.device.core.trigger.is_triggered } := by
    unfold Core.trigger
    split <;> rfl
  have hcoreStart (hstate : s.device.core.state = .idle) : s.device.core.start.state = .idle ∧
      s.device.core.start.trigger_index = s.device.core.trigger_index := by
    rw [Core.start, if_pos hstate]
    exact ⟨hstate, rfl⟩
  cases e with
  | run values => exact h.run hg values
  | trigger => exact h.keep _ htrigger
  | start => exact h.start hcoreStart fun hstate => if_neg hstate
  | stop => exact h.halt rfl rfl rfl rfl
  | reset => exact h.halt rfl rfl rfl rfl
  | startRequest =>
    refine h.start (fun hstate => ?_) fun hstate => ?_
    · simp only [Device.exec, Device.startAct, if_neg (not_not_intro hstate)]
      exact hcoreStart hstate
    · simp only [Device.exec, Device.startAct, if_pos hstate]
  | triggerRequest =>
    refine h.keep s.device.core.trigger.is_triggered ?_
    rw [Device.exec, Device.triggerAct_fst]
    exact htrigger
  | stopRequest => exact h.halt rfl rfl rfl rfl
  | resetRequest => exact h.halt rfl rfl rfl rfl
  | sampleQuery q => exact h
  | pollCheck =>
    refine h.keep s.device.core.is_triggered ?_
    simp only [Device.exec, Device.pollCheck]
    split <;> rfl
  | pollStore => exact h.keep s.device.core.is_triggered rfl

end History.Inv

/-! ## Queries -/

/-- A query that is answered reads its column. -/
theorem Device.sampleQueryAct_values {g : Geometry} {d : Device α} {q : SampleQuery}
    (h : (d.sampleQueryAct g q).status = .ok) :
    q.sample_index < g.buffer_size ∧ (d.sampleQueryAct g q).values =
      (List.range (min g.var_count varCountMax)).map fun i =>
        d.core.buffer ((physicalIndex g d.core q.read_mode q.sample_index + i * g.buffer_size) %
          2 ^ 32) := by
  unfold sampleQueryAct at h ⊢
  split at h
  · exact nomatch h
  split at h
  · exact nomatch h
  split at h
  · exact nomatch h
  split at h
  · exact nomatch h
  split at h
  · exact nomatch h
  next h₁ h₂ h₃ h₄ h₅ =>
  rw [if_neg h₁, if_neg h₂, if_neg h₃, if_neg h₄, if_neg h₅]
  exact ⟨Nat.lt_of_not_le fun hle => h₅ (Or.inr hle), rfl⟩

/-- Sample `j` is read where it is stored. -/
theorem History.Inv.values_eq {g : Geometry} {s : History α} (hg : g.Registered) (h : s.Inv g)
    {q : SampleQuery} (hok : (s.device.sampleQueryAct g q).status = .ok) {j : ℕ}
    (hj : j < s.samples.length) (hnew : s.samples.length ≤ j + g.buffer_size)
    (hplace : Device.physicalIndex g s.device.core q.read_mode q.sample_index = j % g.buffer_size) :
    (s.device.sampleQueryAct g q).values = (List.range g.var_count).map s.samples[j] := by
  rw [(Device.sampleQueryAct_values hok).2, Nat.min_eq_left hg.vars, hplace]
  refine List.map_congr_left fun i hi => ?_
  have hi : i < g.var_count := List.mem_range.mp hi
  have hcell : j % g.buffer_size + i * g.buffer_size < 2 ^ 32 := by
    have hcol := Nat.mod_lt j hg.nonempty
    have hrow : (i + 1) * g.buffer_size ≤ g.var_count * g.buffer_size :=
      Nat.mul_le_mul_right _ hi
    have := hg.rows
    rw [Nat.add_mul] at hrow
    omega
  rw [Nat.mod_eq_of_lt hcell]
  exact h.holds j hj hnew i hi

/-- Without overflow, a NORMAL query counts from the column behind the last sample that
the trigger accounts for. -/
theorem physicalIndex_normal {g : Geometry} (hg : g.Registered) {c : Core α}
    (hindex : c.trigger_index < g.buffer_size) {i : ℕ} (hi : i < g.buffer_size) :
    Device.physicalIndex g c .normal i =
      (c.trigger_index + g.trigger_post_cnt + 1 + i) % g.buffer_size := by
  have hB := hg.nonempty
  have hpost := hg.post
  have hcolumns := hg.columns
  have hsum : c.trigger_index + g.trigger_post_cnt + 1 < 2 ^ 32 := by omega
  have hstart : Device.logicalStartIndex g c .normal =
      (c.trigger_index + g.trigger_post_cnt + 1) % g.buffer_size := by
    unfold Device.logicalStartIndex
    rw [if_neg (Nat.ne_of_gt hB), if_neg (fun hforce => nomatch hforce.1), Nat.mod_eq_of_lt hsum]
  have hlt := Nat.mod_lt (c.trigger_index + g.trigger_post_cnt + 1) hB
  have hplace : (c.trigger_index + g.trigger_post_cnt + 1) % g.buffer_size + i < 2 ^ 32 := by
    omega
  unfold Device.physicalIndex
  rw [if_neg (Nat.ne_of_gt hB), hstart, Nat.mod_eq_of_lt hplace, Nat.mod_add_mod]

/-- Where the newest sample is followed by the column that a query counts from, every
logical index finds its sample. -/
theorem History.Inv.chronological {g : Geometry} {s : History α} (hg : g.Registered) (h : s.Inv g)
    {q : SampleQuery} (hnormal : q.read_mode = .normal)
    (hok : (s.device.sampleQueryAct g q).status = .ok)
    (hplace : s.samples.length % g.buffer_size =
      (s.device.core.trigger_index + g.trigger_post_cnt + 1) % g.buffer_size)
    {j : ℕ} (hj : j < s.samples.length)
    (htime : q.sample_index + s.samples.length = j + g.buffer_size) :
    (s.device.sampleQueryAct g q).values = (List.range g.var_count).map s.samples[j] := by
  have hi := (Device.sampleQueryAct_values hok).1
  refine h.values_eq hg hok hj (by omega) ?_
  calc Device.physicalIndex g s.device.core q.read_mode q.sample_index
      = (s.device.core.trigger_index + g.trigger_post_cnt + 1 + q.sample_index) %
        g.buffer_size := by
        rw [hnormal, physicalIndex_normal hg h.bounded hi]
    _ = (s.samples.length + q.sample_index) % g.buffer_size := by
        rw [Nat.add_mod, ← hplace, ← Nat.add_mod]
    _ = (j + g.buffer_size) % g.buffer_size := by rw [← htime, Nat.add_comm]
    _ = j % g.buffer_size := Nat.add_mod_right _ _

/-- The display index of the trigger finds the sample that met it. -/
theorem History.Inv.at_trigger {g : Geometry} {s : History α} (hg : g.Registered) (h : s.Inv g)
    {q : SampleQuery} (hnormal : q.read_mode = .normal)
    (hok : (s.device.sampleQueryAct g q).status = .ok) (hpost : 0 < g.trigger_post_cnt) {k : ℕ}
    (hk : s.Met g k g.behind) (hindex : q.sample_index = Device.triggerDisplayIndex g) :
    ∃ hlt : k < s.samples.length,
      (s.device.sampleQueryAct g q).values = (List.range g.var_count).map s.samples[k] := by
  have hi := (Device.sampleQueryAct_values hok).1
  have hpost' := hg.post
  have hbehind : g.behind = g.trigger_post_cnt := Nat.max_eq_left hpost
  have hcount := hk.count
  have hdisplay : q.sample_index + g.trigger_post_cnt + 1 = g.buffer_size := by
    rw [hindex, Device.triggerDisplayIndex, if_neg (by omega)]
    omega
  refine ⟨by omega, h.values_eq hg hok (by omega) (by omega) ?_⟩
  rw [hnormal, physicalIndex_normal hg h.bounded hi]
  calc (s.device.core.trigger_index + g.trigger_post_cnt + 1 + q.sample_index) % g.buffer_size
      = (s.device.core.trigger_index + g.buffer_size) % g.buffer_size := by
        congr 1
        omega
    _ = s.device.core.trigger_index % g.buffer_size := Nat.add_mod_right _ _
    _ = k % g.buffer_size := by rw [hk.index, Nat.mod_mod]

/-- **Samples are read out in time order** wherever the trigger accounts for all samples
since the start. -/
theorem samples_read_out {g : Geometry} (hg : g.Registered) {s : History α}
    (h : (histories g).Reachable s) (hplaced : s.Placed g) : s.ReadOut g := by
  have hinv : s.Inv g := by
    refine h.invariant (P := History.Inv g) ?_ ?_
    · rintro s ⟨buffer, rfl⟩
      exact .anew rfl hg.nonempty
    · rintro s t hs ⟨e, rfl⟩
      exact hs.exec hg e
  intro q hnormal hok
  constructor
  · intro j hj htime
    refine hinv.chronological hg hnormal hok ?_ hj htime
    cases hended : s.ended with
    | true =>
      obtain ⟨-, -, k, hk⟩ := hinv.ended hended
      have hbehind : g.behind = g.trigger_post_cnt := Nat.max_eq_left (hplaced.1 hended)
      rw [hk.count, hk.index, hbehind, Nat.add_assoc (k % g.buffer_size), Nat.mod_add_mod]
      congr 1
      omega
    | false =>
      obtain hnone | hplace := hplaced.2 hended
      · rw [hnone] at hj
        exact absurd hj (Nat.not_lt_zero _)
      · exact hplace
  · intro hended hindex
    obtain ⟨-, -, k, hk⟩ := hinv.ended hended
    exact ⟨k, hk.trigger, hinv.at_trigger hg hnormal hok (hplaced.1 hended) hk hindex⟩

theorem fourColumns_registered : fourColumns.Registered := by
  constructor <;> decide

/-- Seven samples since a START. -/
def History.sampled : History ℕ :=
  ((List.range 7).map fun n => Event.run fun _ => n).foldl (History.exec fourColumns)
    ((History.anew (.define fun _ => 0)).exec fourColumns .startRequest)

theorem History.reachable_foldl {g : Geometry} (es : List (Event α)) {s : History α}
    (hs : (histories g).Reachable s) : (histories g).Reachable (es.foldl (History.exec g) s) := by
  have hnext (s : History α) (e : Event α) : (histories g).next s (s.exec g e) := ⟨e, rfl⟩
  exact .foldl hnext es hs

theorem History.sampled_reachable : (histories fourColumns).Reachable History.sampled :=
  reachable_foldl _ (.step (.start ⟨_, rfl⟩) ⟨.startRequest, rfl⟩)

/-- The trigger and one more sample, which ends the capture, with polls between. -/
theorem samples_read_out_triggered :
    ([.triggerRequest, .run fun _ => 7, .pollCheck, .pollStore, .run fun _ => 8, .pollCheck,
      .pollStore].foldl (History.exec fourColumns) History.sampled).ReadOut fourColumns := by
  refine samples_read_out fourColumns_registered
    (History.reachable_foldl _ History.sampled_reachable) ⟨fun _ => by decide, ?_⟩
  intro hended
  exact absurd hended (by decide)

/-- After a STOP the newest of the seven samples is not where it belongs. -/
theorem samples_not_read_out : ¬ ∀ (g : Geometry) (s : History ℕ), g.Registered →
    (histories g).Reachable s → s.ReadOut g := by
  intro hall
  have hread := (hall _ _ fourColumns_registered
    (.step History.sampled_reachable ⟨.stopRequest, rfl⟩) ⟨.normal, 3, 0⟩ rfl
    (by decide)).chronological 6 (by decide) (by decide)
  exact absurd hread (by decide)

end Atoman.Scope
