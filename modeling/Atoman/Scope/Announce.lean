import Atoman.Lib.Transition
import Atoman.Scope.Device

/-!
# Announcing captures

The service notices the end of a capture by two polls that see the scope triggered and
then idle. Sampling calls and triggers come from interrupts, also between the two
reads that one poll makes; requests and polls come from tasks, one after the other.
-/

namespace Atoman.Scope
universe u
variable {α : Type u}

/-- The next sampling call takes the last sample of a triggered capture. -/
def Core.Finishes (g : Geometry) (c : Core α) : Prop :=
  c.state = .triggered ∧ g.trigger_post_cnt ≤ c.trigger_counter + 1

instance (g : Geometry) (c : Core α) : Decidable (c.Finishes g) :=
  inferInstanceAs (Decidable (_ ∧ _))

/-- A capture is armed or being taken. -/
def Core.active (c : Core α) : Bool := c.is_running || c.state ≠ .idle

/-- A scope, and what has happened to it since the last START or RESET. -/
structure Watch (α : Type u) where
  device : Device α
  /-- a poll has made its comparison and not yet stored the state -/
  polling : Bool
  /-- the tag before the capture that has ended since the last poll -/
  pending : Option UInt32
  /-- the tag before the capture that had ended when the last poll began -/
  due : Option UInt32
  /-- a capture has taken its last sample -/
  finished : Bool
  /-- a STOP has ended a capture -/
  stopped : Bool

/-- START and RESET begin anew. -/
def Watch.anew (d : Device α) : Watch α := ⟨d, false, none, none, false, false⟩

/-- An event. -/
def Watch.exec (g : Geometry) (s : Watch α) (e : Event α) : Watch α :=
  let device := s.device.exec g e
  match e with
  | .run _ =>
    if s.device.core.Finishes g then
      { s with device := device, pending := some s.device.capture_tag, finished := true }
    else { s with device := device }
  | .startRequest =>
    if s.device.core.state = .idle then .anew device else { s with device := device }
  | .resetRequest => .anew device
  | .stopRequest => { s with device := device, stopped := s.stopped || s.device.core.active }
  | .pollCheck => { s with device := device, polling := true, pending := none, due := s.pending }
  | .pollStore => { s with device := device, polling := false }
  | _ => { s with device := device }

/-- What interrupts and tasks can do: between the two reads of a poll there are only
sampling calls and triggers, and a scope is started, stopped and reset by request. -/
def Interleaved (s : Watch α) : Event α → Prop
  | .run _ => True
  | .trigger => True
  | .start => False
  | .stop => False
  | .reset => False
  | .pollStore => s.polling = true
  | _ => s.polling = false

/-- The runs in which every event meets a condition. -/
def watched (g : Geometry) (allowed : Watch α → Event α → Prop) : Lib.Transition (Watch α) where
  init s := ∃ buffer, s = .anew (.define buffer)
  next s t := ∃ e, Interleaved s e ∧ allowed s e ∧ t = s.exec g e

/-- **Announced**: what had ended when the last poll began is announced, and data are
ready only when a capture has ended. -/
structure Watch.Announced (s : Watch α) : Prop where
  announced : ∀ tag, s.due = some tag → s.device.data_ready = true ∧ s.device.capture_tag ≠ tag
  ready : s.device.data_ready = true → s.finished = true ∨ s.stopped = true

/-- The condition on an event: a capture takes its last sample only when a poll has
seen it triggered, and not between the two reads of a poll; STOP does not come between
the end of a capture and the poll that announces it, nor without a capture to end when
no data are ready. -/
def Observed (g : Geometry) (s : Watch α) : Event α → Prop
  | .run _ => s.device.core.Finishes g → s.device.last_state = .triggered ∧ s.polling = false
  | .stopRequest => ¬ (s.device.last_state = .triggered ∧ s.device.core.state = .idle) ∧
      (s.device.core.active = true ∨ s.device.data_ready = true)
  | _ => True

/-! ## The core, as the service sees it -/

namespace Core

/-- No capture, no sample. -/
theorem run_of_idle (g : Geometry) {c : Core α} (values : ℕ → α) (hstate : c.state = .idle)
    (hrunning : c.is_running = false) : c.run g values = c := by
  rw [run, if_pos hstate, if_neg (by rw [hrunning]; exact Bool.false_ne_true)]

/-- The last sample. -/
theorem run_of_finishes (g : Geometry) {c : Core α} (values : ℕ → α) (h : c.Finishes g) :
    (c.run g values).state = .idle ∧ (c.run g values).is_running = false := by
  obtain ⟨hstate, hcount⟩ := h
  have hidle : c.state ≠ .idle := by rw [hstate]; decide
  have hrunning : ¬ (c.state = .running ∧ c.is_triggered = true) := by simp [hstate]
  rw [run, if_neg hidle]
  simp only [sample]
  rw [if_neg hrunning, if_pos hstate, if_pos hcount]
  exact ⟨rfl, rfl⟩

/-- A sample after the trigger that is not the last one. -/
theorem run_of_triggered (g : Geometry) {c : Core α} (values : ℕ → α)
    (hstate : c.state = .triggered) (h : ¬ c.Finishes g) :
    (c.run g values).state = .triggered := by
  have hidle : c.state ≠ .idle := by rw [hstate]; decide
  have hrunning : ¬ (c.state = .running ∧ c.is_triggered = true) := by simp [hstate]
  have hcount : ¬ g.trigger_post_cnt ≤ c.trigger_counter + 1 := fun hcount => h ⟨hstate, hcount⟩
  rw [run, if_neg hidle]
  simp only [sample]
  rw [if_neg hrunning, if_pos hstate, if_neg hcount]
  exact hstate

@[simp] theorem trigger_state (c : Core α) : c.trigger.state = c.state := by
  unfold trigger
  split <;> rfl

@[simp] theorem trigger_is_running (c : Core α) : c.trigger.is_running = c.is_running := by
  unfold trigger
  split <;> rfl

end Core

/-! ## The service -/

/-- A new tag is another one. -/
theorem tagInc_ne (tag : UInt32) : Device.tagInc tag ≠ tag := by
  unfold Device.tagInc
  intro h
  have := tag.toNat_lt
  split at h
  · have := UInt32.toNat_inj.mpr h
    rw [UInt32.toNat_add, UInt32.toNat_add] at this
    simp only [UInt32.toNat_one] at this
    omega
  · have := UInt32.toNat_inj.mpr h
    rw [UInt32.toNat_add] at this
    simp only [UInt32.toNat_one] at this
    omega

/-- A TRIGGER request is a trigger, as far as the state goes. -/
theorem Device.triggerAct_fst (d : Device α) :
    d.triggerAct.1 = { d with core := d.core.trigger } := by
  unfold triggerAct
  split
  · next hstate =>
    rw [Core.trigger, if_neg hstate]
  · rfl

/-- START and RESET leave no data, and a state that the service knows. -/
theorem Device.resetAct_ready (d : Device α) :
    d.resetAct.1.data_ready = false ∧ d.resetAct.1.last_state = .idle := ⟨rfl, rfl⟩

theorem Device.startAct_ready {d : Device α} (h : d.core.state = .idle) :
    d.startAct.1.data_ready = false ∧ d.startAct.1.last_state = .idle := by
  unfold startAct
  rw [if_neg (not_not_intro h)]
  refine ⟨rfl, ?_⟩
  show d.core.start.state = .idle
  rw [Core.start, if_pos h]
  exact h

/-! ## The invariant -/

/-- What holds in every run that meets the condition. -/
structure Watch.Inv (s : Watch α) : Prop where
  pending : ∀ tag, s.pending = some tag → s.device.core.state = .idle ∧
    s.device.core.is_running = false ∧ s.device.last_state = .triggered ∧
    s.device.capture_tag = tag ∧ s.polling = false
  seen : s.device.last_state = .triggered → s.device.core.state = .triggered ∨ s.finished = true
  told : s.Announced

namespace Watch.Inv
variable {g : Geometry} {s : Watch α}

/-- Nothing has happened yet. -/
theorem anew {d : Device α} (hready : d.data_ready = false) (hlast : d.last_state = .idle) :
    (Watch.anew d).Inv where
  pending := fun _ h => nomatch h
  seen := fun h => by
    have h : d.last_state = .triggered := h
    rw [hlast] at h
    exact nomatch h
  told := by
    refine ⟨(fun _ h => nomatch h), fun h => ?_⟩
    have h : d.data_ready = true := h
    rw [hready] at h
    exact nomatch h

/-- Events that change the core only, and keep its state. -/
theorem keep (h : s.Inv) {c : Core α} (hstate : c.state = s.device.core.state)
    (hrunning : c.is_running = s.device.core.is_running) :
    Watch.Inv { s with device := { s.device with core := c } } where
  pending := fun tag htag => by
    simpa only [hstate, hrunning] using h.pending tag htag
  seen := fun hlast => by
    simpa only [hstate] using h.seen hlast
  told := ⟨h.told.announced, h.told.ready⟩

/-- A sampling call. -/
theorem run (h : s.Inv) (values : ℕ → α) (hok : Observed g s (.run values)) :
    (s.exec g (.run values)).Inv := by
  simp only [Watch.exec, Device.exec]
  split
  · next hfin =>
    obtain ⟨hlast, hpolling⟩ := hok hfin
    obtain ⟨hstate, hrunning⟩ := Core.run_of_finishes g values hfin
    constructor
    · intro tag htag
      exact ⟨hstate, hrunning, hlast, Option.some.inj htag, hpolling⟩
    · intro _
      exact Or.inr rfl
    · exact ⟨h.told.announced, fun _ => Or.inl rfl⟩
  · next hfin =>
    constructor
    · intro tag htag
      obtain ⟨hstate, hrunning, hrest⟩ := h.pending tag htag
      have hrun := Core.run_of_idle g values hstate hrunning
      simp only [hrun]
      exact ⟨hstate, hrunning, hrest⟩
    · intro hlast
      obtain hstate | hdone := h.seen hlast
      · exact Or.inl (Core.run_of_triggered g values hstate hfin)
      · exact Or.inr hdone
    · exact ⟨h.told.announced, h.told.ready⟩

/-- A STOP, which ends the wait for nothing. -/
theorem stop (h : s.Inv) (hok : Observed g s .stopRequest) :
    (s.exec g .stopRequest).Inv := by
  obtain ⟨hnot, hactive⟩ := hok
  constructor
  · intro tag htag
    obtain ⟨hstate, -, hlast, -⟩ := h.pending tag htag
    exact absurd ⟨hlast, hstate⟩ hnot
  · intro hlast
    exact nomatch hlast
  · constructor
    · intro tag htag
      exact ⟨rfl, (h.told.announced tag htag).2⟩
    · intro _
      obtain hactive | hready := hactive
      · exact Or.inr (by simp only [Watch.exec, hactive, Bool.or_true])
      · obtain hfin | hstop := h.told.ready hready
        · exact Or.inl hfin
        · exact Or.inr (by simp only [Watch.exec, hstop, Bool.true_or])

/-- The comparison of a poll announces the capture that has ended. -/
theorem check (h : s.Inv) : (s.exec g .pollCheck).Inv := by
  simp only [Watch.exec, Device.exec, Device.pollCheck]
  split
  · next hcheck =>
    have hfin : s.finished = true := by
      refine (h.seen hcheck.1).resolve_left fun hstate => ?_
      rw [hcheck.2] at hstate
      exact nomatch hstate
    constructor
    · intro tag htag
      exact nomatch htag
    · intro _
      exact Or.inr hfin
    · constructor
      · intro tag htag
        obtain ⟨-, -, -, htag, -⟩ := h.pending tag htag
        subst htag
        exact ⟨rfl, tagInc_ne _⟩
      · intro _
        exact Or.inl hfin
  · next hcheck =>
    constructor
    · intro tag htag
      exact nomatch htag
    · exact h.seen
    · constructor
      · intro tag htag
        obtain ⟨hstate, -, hlast, -⟩ := h.pending tag htag
        exact absurd ⟨hlast, hstate⟩ hcheck
      · exact h.told.ready

/-- The store of a poll. -/
theorem store (h : s.Inv) (hpolling : s.polling = true) : (s.exec g .pollStore).Inv where
  pending := fun tag htag => by
    obtain ⟨-, -, -, -, hnot⟩ := h.pending tag htag
    rw [hpolling] at hnot
    exact nomatch hnot
  seen := fun hlast => Or.inl hlast
  told := ⟨h.told.announced, h.told.ready⟩

/-- Every event that meets the condition keeps the invariant. -/
theorem exec (h : s.Inv) {e : Event α} (hin : Interleaved s e) (hok : Observed g s e) :
    (s.exec g e).Inv := by
  cases e with
  | run values => exact h.run values hok
  | trigger => exact h.keep (Core.trigger_state _) (Core.trigger_is_running _)
  | start => exact hin.elim
  | stop => exact hin.elim
  | reset => exact hin.elim
  | startRequest =>
    simp only [Watch.exec, Device.exec]
    split
    · next hstate =>
      obtain ⟨hready, hlast⟩ := Device.startAct_ready hstate
      exact anew hready hlast
    · next hstate =>
      rw [Device.startAct, if_pos hstate]
      exact h
  | triggerRequest =>
    simp only [Watch.exec, Device.exec, Device.triggerAct_fst]
    exact h.keep (Core.trigger_state _) (Core.trigger_is_running _)
  | stopRequest => exact h.stop hok
  | resetRequest =>
    obtain ⟨hready, hlast⟩ := s.device.resetAct_ready
    exact anew hready hlast
  | sampleQuery q => exact h
  | pollCheck => exact h.check
  | pollStore => exact h.store hin

end Watch.Inv

/-- **Every completed capture is announced** in every run whose events meet the
condition. -/
theorem captures_announced {g : Geometry} {s : Watch α} (h : (watched g (Observed g)).Reachable s) :
    s.Announced := by
  have hinv : s.Inv := by
    refine h.invariant (P := Watch.Inv) ?_ ?_
    · rintro s ⟨buffer, rfl⟩
      exact .anew rfl rfl
    · rintro s t hs ⟨e, hin, hok, rfl⟩
      exact hs.exec hin hok
  exact hinv.told

/-- The scope on which the two runs below are: four columns, and one sample after the
trigger. -/
def fourColumns : Geometry := ⟨4, 1, 1⟩

/-- A START and samples up to the one that meets the trigger. -/
def Watch.triggered : Watch ℕ :=
  [.startRequest, .run fun _ => 1, .triggerRequest, .run fun _ => 2].foldl (Watch.exec fourColumns)
    (.anew (.define fun _ => 0))

/-- A poll, the last sample and the next poll, which announces. -/
theorem captures_announced_polled :
    ([.pollCheck, .pollStore, .run fun _ => 3, .pollCheck].foldl (Watch.exec fourColumns)
      Watch.triggered).Announced := by
  have hreach : (watched fourColumns (Observed fourColumns)).Reachable
      ([.pollCheck, .pollStore, .run fun _ => 3, .pollCheck].foldl (Watch.exec fourColumns)
        Watch.triggered) :=
    .step (.step (.step (.step (.step (.step (.step (.step (.start ⟨_, rfl⟩)
      ⟨.startRequest, rfl, trivial, rfl⟩)
      ⟨.run fun _ => 1, trivial, fun h => absurd h (by decide), rfl⟩)
      ⟨.triggerRequest, rfl, trivial, rfl⟩)
      ⟨.run fun _ => 2, trivial, fun h => absurd h (by decide), rfl⟩)
      ⟨.pollCheck, rfl, trivial, rfl⟩)
      ⟨.pollStore, rfl, trivial, rfl⟩)
      ⟨.run fun _ => 3, trivial, fun _ => ⟨rfl, rfl⟩, rfl⟩)
      ⟨.pollCheck, rfl, trivial, rfl⟩
  exact captures_announced hreach

/-- The same without the first poll: the capture is over and nobody hears of it. -/
theorem captures_not_announced :
    ¬ ∀ s : Watch ℕ, (watched fourColumns fun _ _ => True).Reachable s → s.Announced := by
  intro hall
  have hreach : (watched fourColumns fun _ _ => True).Reachable
      ([.run fun _ => 3, .pollCheck].foldl (Watch.exec fourColumns) Watch.triggered) :=
    .step (.step (.step (.step (.step (.step (.start ⟨_, rfl⟩)
      ⟨.startRequest, rfl, trivial, rfl⟩)
      ⟨.run fun _ => 1, trivial, trivial, rfl⟩)
      ⟨.triggerRequest, rfl, trivial, rfl⟩)
      ⟨.run fun _ => 2, trivial, trivial, rfl⟩)
      ⟨.run fun _ => 3, trivial, trivial, rfl⟩)
      ⟨.pollCheck, rfl, trivial, rfl⟩
  obtain ⟨hready, -⟩ := (hall _ hreach).announced 1 rfl
  exact Bool.noConfusion hready

end Atoman.Scope
