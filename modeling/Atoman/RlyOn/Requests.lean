import Atoman.Lib.Since
import Atoman.RlyOn.Interleaving

/-!
# Requests to open the relay

What a run of calls with other code in between promises about the two triggers. The relay is
closed for a reason, and stays open once opened, in every run. That a request to open is
answered by the next call holds as long as no such request falls into the window of a call
that clears the OFF trigger after it has read it.
-/

namespace Atoman.RlyOn
open Lib (since since_append_cons since_concat_of_ne since_suffix eq_split_of_concat
  pair_sublist_concat pair_sublist_since_iff)

/-! ## What is promised -/

/-- Once a call is over that started after a request to open the relay, the relay has been
opened since the request. -/
def Answered (log : List Event) : Prop :=
  ∀ before between call after,
    log = before ++ Event.offRequest ::
        (between ++ Event.callStart :: (call ++ Event.callEnd :: after)) →
      Event.rlyOff ∈ between ++ call

/-- An opened relay is not closed before a later request. -/
def StaysOff (log : List Event) : Prop :=
  ∀ before between after, log = before ++ Event.rlyOff :: (between ++ Event.rlyOn :: after) →
    Event.onRequest ∈ between

/-- The relay is closed after a request and a call that saw the synchronisation flag set, and
was not opened in between. -/
def Justified (log : List Event) : Prop :=
  ∀ before after, log = before ++ Event.rlyOn :: after →
    ∃ earlier between later,
      before = earlier ++ Event.onRequest :: (between ++ Event.equalSeen :: later) ∧
        Event.rlyOff ∉ between ++ later

/-! ## Since the relay was opened -/

/-- The relay was asked to close. -/
def Asked (log : List Event) : Prop := Event.onRequest ∈ since .rlyOff log

/-- The relay was asked to close, and then both sides matched. -/
def Matched (log : List Event) : Prop :=
  [Event.onRequest, .equalSeen].Sublist (since .rlyOff log)

/-- The relay was asked to open. -/
def Pending (log : List Event) : Prop := Event.offRequest ∈ since .rlyOff log

/-- The relay was asked to open, and then a call started. -/
def Late (log : List Event) : Prop :=
  [Event.offRequest, .callStart].Sublist (since .rlyOff log)

section Concat
variable {log : List Event} {e : Event}

@[simp] theorem not_asked_off : ¬ Asked (log ++ [Event.rlyOff]) := by simp [Asked]

@[simp] theorem not_matched_off : ¬ Matched (log ++ [Event.rlyOff]) := by simp [Matched]

@[simp] theorem not_pending_off : ¬ Pending (log ++ [Event.rlyOff]) := by simp [Pending]

@[simp] theorem not_late_off : ¬ Late (log ++ [Event.rlyOff]) := by simp [Late]

@[simp] theorem asked_concat (he : e ≠ .rlyOff) :
    Asked (log ++ [e]) ↔ Asked log ∨ e = .onRequest := by
  rw [Asked, since_concat_of_ne he, List.mem_append, List.mem_singleton, eq_comm (a := e)]
  rfl

@[simp] theorem matched_concat (he : e ≠ .rlyOff) :
    Matched (log ++ [e]) ↔ Matched log ∨ Asked log ∧ .equalSeen = e := by
  rw [Matched, since_concat_of_ne he, pair_sublist_concat]
  rfl

@[simp] theorem pending_concat (he : e ≠ .rlyOff) :
    Pending (log ++ [e]) ↔ Pending log ∨ e = .offRequest := by
  rw [Pending, since_concat_of_ne he, List.mem_append, List.mem_singleton, eq_comm (a := e)]
  rfl

@[simp] theorem late_concat (he : e ≠ .rlyOff) :
    Late (log ++ [e]) ↔ Late log ∨ Pending log ∧ .callStart = e := by
  rw [Late, since_concat_of_ne he, pair_sublist_concat]
  rfl

theorem Asked.concat (h : Asked log) (he : e ≠ .rlyOff) : Asked (log ++ [e]) :=
  (asked_concat he).mpr (Or.inl h)

theorem Matched.concat (h : Matched log) (he : e ≠ .rlyOff) : Matched (log ++ [e]) :=
  (matched_concat he).mpr (Or.inl h)

theorem Late.pending (h : Late log) : Pending log := h.subset List.mem_cons_self

theorem matched_iff : Matched log ↔ ∃ earlier between later,
    log = earlier ++ Event.onRequest :: (between ++ Event.equalSeen :: later) ∧
      Event.rlyOff ∉ between ++ later :=
  pair_sublist_since_iff (by decide) (by decide)

theorem late_iff : Late log ↔ ∃ earlier between later,
    log = earlier ++ Event.offRequest :: (between ++ Event.callStart :: later) ∧
      Event.rlyOff ∉ between ++ later :=
  pair_sublist_since_iff (by decide) (by decide)

/-- A closed relay was asked to close and saw both sides match. -/
theorem justified_iff :
    Justified log ↔ ∀ before after, log = before ++ Event.rlyOn :: after → Matched before :=
  forall₂_congr fun _ _ => imp_congr_right fun _ => matched_iff.symm

theorem justified_concat (he : e = .rlyOn → Matched log) (h : Justified log) :
    Justified (log ++ [e]) := by
  rw [justified_iff] at h ⊢
  intro before after heq
  rcases eq_split_of_concat heq with ⟨-, hlast, hlog⟩ | ⟨rest, -, hlog⟩
  · rw [← hlog]
    exact he hlast
  · exact h before rest hlog

/-- A relay that is closed for a reason stays open once opened. -/
theorem Justified.staysOff (h : Justified log) : StaysOff log := by
  rintro before between after rfl
  have hmatched := justified_iff.mp h (before ++ Event.rlyOff :: between) after (by simp)
  rw [Matched, since_append_cons] at hmatched
  exact since_suffix.subset (hmatched.subset List.mem_cons_self)

theorem answered_concat (he : e = .callEnd → ¬ Late log) (h : Answered log) :
    Answered (log ++ [e]) := by
  intro before between call after heq
  by_contra hoff
  have heq' : log ++ [e] =
      (before ++ Event.offRequest :: (between ++ Event.callStart :: call)) ++
        Event.callEnd :: after := by
    rw [heq]
    simp
  rcases eq_split_of_concat heq' with ⟨-, hlast, hlog⟩ | ⟨rest, -, hlog⟩
  · exact he hlast (late_iff.mpr ⟨before, between, call, hlog, hoff⟩)
  · exact hoff (h before between call rest (by rw [hlog]; simp))

end Concat

/-! ## The relay is closed for a reason -/

namespace Running
variable {F : Type} {s : Running F} {arith : Arith F}

/-- The part of `rly_on_force_off` behind the callback. -/
def Releasing (s : Running F) : Prop := s.point = .rlyOff ∨ s.point = .clearOff

/-- What leads to a closed relay, from the request on. -/
structure Closing (s : Running F) : Prop where
  inputs : s.p_str.inputs = true
  callbacks : s.p_str.callbacks = true
  asked : s.p_str.rly_on_trig = true → s.point ≠ .rlyOff → Asked s.log
  accepted : s.point = .accept → Asked s.log
  waiting : s.p_str.sta = .wait → ¬ s.Releasing → Asked s.log
  equal : s.point = .equal → Matched s.log
  timed : s.p_str.sta = .dly → ¬ s.Releasing → Matched s.log
  justified : Justified s.log

theorem closing_start (p_str : RlyOn F) (ctrl_freq rly_on_time_def : F) :
    (start p_str ctrl_freq rly_on_time_def).Closing := by
  have hlog : Event.rlyOn ∉ (start p_str ctrl_freq rly_on_time_def).log := by
    unfold Running.start
    dsimp only
    split <;> split <;> simp
  have hasked : p_str.rly_on_trig = true → Asked (start p_str ctrl_freq rly_on_time_def).log := by
    intro ht
    rw [Running.start, if_pos ht]
    split
    · show Event.onRequest ∈ since .rlyOff [Event.onRequest, .offRequest]
      decide
    · show Event.onRequest ∈ since .rlyOff [Event.onRequest]
      decide
  refine ⟨rfl, rfl, fun ht _ => hasked ht, nofun, nofun, nofun, nofun, ?_⟩
  intro before after heq
  rw [heq] at hlog
  exact absurd (by simp) hlog

/-- The end of a call. -/
theorem Closing.finish (h : s.Closing) (hpoint : s.point ≠ .rlyOff) {p_str : RlyOn F}
    (hinputs : p_str.inputs = true) (hcallbacks : p_str.callbacks = true)
    (hon : p_str.rly_on_trig = true → s.p_str.rly_on_trig = true)
    (hwait : p_str.sta = .wait → Asked s.log) (hdly : p_str.sta = .dly → Matched s.log) :
    (s.finish p_str).Closing := by
  refine ⟨hinputs, hcallbacks, fun ht _ => ?_, nofun, fun hsta _ => ?_, nofun, fun hsta _ => ?_, ?_⟩
  · exact (h.asked (hon ht) hpoint).concat (by decide)
  · exact (hwait hsta).concat (by decide)
  · exact (hdly hsta).concat (by decide)
  · exact justified_concat nofun h.justified

/-- One more entry, which is no callback. -/
theorem Closing.concat (h : s.Closing) {e : Event} (hoff : e ≠ .rlyOff) (hon : e ≠ .rlyOn) :
    ({ s with log := s.log ++ [e] } : Running F).Closing where
  inputs := h.inputs
  callbacks := h.callbacks
  asked := fun ht hpoint => (h.asked ht hpoint).concat hoff
  accepted := fun hpoint => (h.accepted hpoint).concat hoff
  waiting := fun hsta hpoint => (h.waiting hsta hpoint).concat hoff
  equal := fun hpoint => (h.equal hpoint).concat hoff
  timed := fun hsta hpoint => (h.timed hsta hpoint).concat hoff
  justified := justified_concat (fun he => absurd he hon) h.justified

theorem Closing.resume (h : s.Closing) : (s.resume arith).Closing := by
  obtain ⟨p_str, point, log⟩ := s
  have hinputs : p_str.inputs = true := h.inputs
  have hcallbacks : p_str.callbacks = true := h.callbacks
  have hjustified : Justified log := h.justified
  have hasked : p_str.rly_on_trig = true → point ≠ .rlyOff → Asked log := h.asked
  have hwaiting : p_str.sta = .wait → point ≠ .rlyOff ∧ point ≠ .clearOff → Asked log :=
    fun hsta hpoint => h.waiting hsta (not_or.mpr hpoint)
  have htimed : p_str.sta = .dly → point ≠ .rlyOff ∧ point ≠ .clearOff → Matched log :=
    fun hsta hpoint => h.timed hsta (not_or.mpr hpoint)
  unfold Running.resume
  cases point with
  | ready => exact h
  | entry =>
    simp only [hinputs, Bool.true_eq_false, if_false]
    split
    · constructor <;> simp_all [Releasing]
    · constructor <;> simp_all [Releasing]
  | forceOff =>
    simp only [hcallbacks, if_true]
    constructor <;> simp_all [Releasing, justified_concat]
  | rlyOff => constructor <;> simp_all [Releasing]
  | clearOff =>
    have hready : p_str.isReady = true := by simp [isReady, hinputs, hcallbacks]
    simp only [hready, if_true]
    exact h.finish (by simp) hinputs hcallbacks id (by simp) (by simp)
  | dispatch =>
    cases hsta : p_str.sta with
    | init =>
      simp only [hsta, hcallbacks, Bool.true_eq_false, if_false]
      constructor <;> simp_all [Releasing]
    | idle =>
      simp only [hsta]
      split
      · constructor <;> simp_all [Releasing]
      · exact h.finish (by simp) hinputs hcallbacks id (by simp [hsta]) (by simp [hsta])
    | wait =>
      have hreason := hwaiting hsta ⟨(by simp), (by simp)⟩
      simp only [hsta]
      split
      · constructor <;> simp_all [Releasing, justified_concat]
      · exact h.finish (by simp) hinputs hcallbacks id (fun _ => hreason) (by simp [hsta])
    | dly =>
      have hreason := htimed hsta ⟨(by simp), (by simp)⟩
      simp only [hsta]
      split
      · constructor <;> simp_all [Releasing, justified_concat]
      · exact h.finish (by simp) hinputs hcallbacks id (by simp) (fun _ => hreason)
    | run =>
      simp only [hsta]
      split
      · split
        · exact h.finish (by simp) hinputs hcallbacks id (by simp) (by simp)
        · exact h.finish (by simp) hinputs hcallbacks id (by simp) (by simp)
      · exact h.finish (by simp) hinputs hcallbacks id (by simp [hsta]) (by simp [hsta])
    | err =>
      simp only [hsta]
      exact h.finish (by simp) hinputs hcallbacks id (by simp [hsta]) (by simp [hsta])
  | initClear =>
    exact h.finish (by simp) hinputs hcallbacks (by simp)
      (fun hsta => hwaiting hsta ⟨(by simp), (by simp)⟩)
      (fun hsta => htimed hsta ⟨(by simp), (by simp)⟩)
  | accept =>
    exact h.finish (by simp) hinputs hcallbacks (by simp) (fun _ => h.accepted rfl) (by simp)
  | equal => exact h.finish (by simp) hinputs hcallbacks id (by simp) (fun _ => h.equal rfl)
  | rlyOn => constructor <;> simp_all [Releasing]
  | dlyClear =>
    exact h.finish (by simp) hinputs hcallbacks id
      (fun hsta => hwaiting hsta ⟨(by simp), (by simp)⟩)
      (fun hsta => htimed hsta ⟨(by simp), (by simp)⟩)

theorem Closing.move (h : s.Closing) (m : Move F) : (s.move arith m).Closing := by
  cases m with
  | setOn =>
    have hlog := h.concat (e := .onRequest) nofun nofun
    have hasked : Asked (s.log ++ [Event.onRequest]) :=
      (asked_concat (by decide)).mpr (Or.inr rfl)
    exact { hlog with asked := fun _ _ => hasked }
  | setOff => exact { h.concat (e := .offRequest) nofun nofun with }
  | measure is_equal freq => exact { h with }
  | call =>
    unfold Running.move
    dsimp only
    split
    · next hready =>
      have hlog := h.concat (e := .callStart) nofun nofun
      refine { hlog with
        accepted := nofun, equal := nofun, asked := ?_, waiting := ?_, timed := ?_ }
      · exact fun ht _ => hlog.asked ht (by simp [hready])
      · exact fun hsta _ => hlog.waiting hsta (by simp [Releasing, hready])
      · exact fun hsta _ => hlog.timed hsta (by simp [Releasing, hready])
    · exact h
  | resume => exact h.resume

/-! ## Requests to open are answered -/

/-- The call clears the OFF trigger later on, without reading it again: `rly_off` has been
called, or the delay is over and the OFF trigger was read before. -/
def Window (s : Running F) : Prop :=
  s.point = .rlyOff ∨ s.point = .clearOff ∨ s.point = .rlyOn ∨ s.point = .dlyClear ∨
    s.point = .dispatch ∧ s.p_str.sta = .dly ∧ s.p_str.dly ≤ s.p_str.dly_cnt

instance (s : Running F) : Decidable s.Window :=
  inferInstanceAs (Decidable (_ ∨ _ ∨ _ ∨ _ ∨ _ ∧ _ ∧ _))

/-- What leads to an opened relay, from the request on. -/
structure Opening (s : Running F) : Prop where
  pending : Pending s.log → s.p_str.rly_off_trig = true
  window : s.Window → ¬ Pending s.log
  late : Late s.log → s.point = .entry ∨ s.point = .forceOff
  answered : Answered s.log

theorem opening_start (p_str : RlyOn F) (ctrl_freq rly_on_time_def : F) :
    (start p_str ctrl_freq rly_on_time_def).Opening := by
  have hcall : Event.callStart ∉ (start p_str ctrl_freq rly_on_time_def).log := by
    unfold Running.start
    dsimp only
    split <;> split <;> simp
  refine ⟨fun hpending => ?_, by simp [Window, Running.start], fun hlate => ?_, ?_⟩
  · by_contra hoff
    have hmem := since_suffix.subset hpending
    rw [Running.start, if_neg (show ¬ p_str.rly_off_trig = true from hoff)] at hmem
    revert hmem
    split <;> simp
  · refine absurd (since_suffix.subset (hlate.subset ?_)) hcall
    simp
  · intro before between call after heq
    rw [heq] at hcall
    exact absurd (by simp) hcall

/-- The end of a call that does not go on to open the relay. -/
theorem Opening.finish (h : s.Opening) (hpoint : ¬ (s.point = .entry ∨ s.point = .forceOff))
    {p_str : RlyOn F} (hoff : Pending s.log → p_str.rly_off_trig = true) :
    (s.finish p_str).Opening := by
  have hlate : ¬ Late s.log := fun hlate => hpoint (h.late hlate)
  refine ⟨fun hpending => hoff ?_, by simp [Window, Running.finish], fun hlate' => ?_, ?_⟩
  · simpa [Running.finish] using hpending
  · exact absurd (by simpa [Running.finish] using hlate') hlate
  · exact answered_concat (fun _ => hlate) h.answered

/-- A place that a call goes on to. -/
theorem Opening.goto (h : s.Opening) (hpoint : ¬ (s.point = .entry ∨ s.point = .forceOff))
    {p_str : RlyOn F} {point : Point} (hoff : p_str.rly_off_trig = s.p_str.rly_off_trig)
    (hwindow : ({ s with p_str := p_str, point := point } : Running F).Window → s.Window) :
    ({ s with p_str := p_str, point := point } : Running F).Opening where
  pending := fun hpending => hoff.trans (h.pending hpending)
  window := fun hin => h.window (hwindow hin)
  late := fun hlate => absurd (h.late hlate) hpoint
  answered := h.answered

/-- One more entry that is neither a request to open nor the answer, nor the limit of a call. -/
theorem Opening.concat (h : s.Opening) {e : Event}
    (he : e = .onRequest ∨ e = .equalSeen ∨ e = .rlyOn) :
    ({ s with log := s.log ++ [e] } : Running F).Opening := by
  have hne : e ≠ .rlyOff ∧ e ≠ .offRequest ∧ e ≠ .callEnd ∧ ¬ Event.callStart = e := by
    rcases he with rfl | rfl | rfl <;> decide
  have hpending : Pending (s.log ++ [e]) ↔ Pending s.log := by simp [hne.1, hne.2.1]
  have hlate : Late (s.log ++ [e]) ↔ Late s.log := by simp [hne.1, hne.2.2.2]
  refine ⟨fun hp => h.pending (hpending.mp hp), fun hin hp => h.window hin (hpending.mp hp),
    fun hl => h.late (hlate.mp hl), answered_concat (fun hend => absurd hend hne.2.2.1) h.answered⟩

theorem Opening.resume (hc : s.Closing) (h : s.Opening) : (s.resume arith).Opening := by
  obtain ⟨p_str, point, log⟩ := s
  have hinputs : p_str.inputs = true := hc.inputs
  have hcallbacks : p_str.callbacks = true := hc.callbacks
  have hpending : Pending log → p_str.rly_off_trig = true := h.pending
  unfold Running.resume
  cases point with
  | ready => exact h
  | entry =>
    simp only [hinputs, Bool.true_eq_false, if_false]
    split
    · exact ⟨h.pending, by simp [Window], fun _ => Or.inr rfl, h.answered⟩
    · next hoff =>
      have hnone : ¬ Pending log := fun hp => hoff (hpending hp)
      exact ⟨h.pending, fun _ => hnone, fun hlate => absurd hlate.pending hnone, h.answered⟩
  | forceOff =>
    simp only [hcallbacks, if_true]
    exact ⟨by simp, by simp, by simp, answered_concat nofun h.answered⟩
  | rlyOff => exact h.goto (by simp) rfl (by simp [Window])
  | clearOff => exact h.finish (by simp) fun hp => absurd hp (h.window (by simp [Window]))
  | dispatch =>
    cases hsta : p_str.sta with
    | init =>
      simp only [hsta, hcallbacks, Bool.true_eq_false, if_false]
      exact h.goto (by simp) rfl (by simp [Window])
    | idle =>
      simp only [hsta]
      split
      · exact h.goto (by simp) rfl (by simp [Window])
      · exact h.finish (by simp) hpending
    | wait =>
      simp only [hsta]
      split
      · have hseen := h.concat (e := .equalSeen) (by simp)
        exact hseen.goto (by simp) rfl (by simp [Window])
      · exact h.finish (by simp) hpending
    | dly =>
      simp only [hsta]
      split
      · next hover =>
        have hcalled := h.concat (e := .rlyOn) (by simp)
        exact hcalled.goto (by simp) rfl (fun _ => by simp [Window, hsta, hover])
      · exact h.finish (by simp) hpending
    | run =>
      simp only [hsta]
      split
      · split
        · exact h.finish (by simp) hpending
        · exact h.finish (by simp) hpending
      · exact h.finish (by simp) hpending
    | err =>
      simp only [hsta]
      exact h.finish (by simp) hpending
  | initClear => exact h.finish (by simp) hpending
  | accept => exact h.finish (by simp) hpending
  | equal => exact h.finish (by simp) hpending
  | rlyOn => exact h.goto (by simp) rfl (by simp [Window])
  | dlyClear => exact h.finish (by simp) fun hp => absurd hp (h.window (by simp [Window]))

/-- The OFF trigger is not set in a window. -/
def Clear (s : Running F) (m : Move F) : Prop := m = .setOff → ¬ s.Window

instance [DecidableEq F] (s : Running F) (m : Move F) : Decidable (s.Clear m) :=
  inferInstanceAs (Decidable (_ → ¬ _))

theorem Opening.move (hc : s.Closing) (h : s.Opening) {m : Move F} (hclear : s.Clear m) :
    (s.move arith m).Opening := by
  cases m with
  | setOn => exact { h.concat (e := .onRequest) (by simp) with }
  | setOff =>
    have hwindow : ¬ s.Window := hclear rfl
    refine ⟨fun _ => rfl, fun hin => absurd hin hwindow, fun hlate => ?_, ?_⟩
    · exact h.late (by simpa [Running.move] using hlate)
    · exact answered_concat nofun h.answered
  | measure is_equal freq => exact { h with }
  | call =>
    unfold Running.move
    dsimp only
    split
    · refine ⟨fun hpending => h.pending (by simpa using hpending), by simp [Window],
        fun _ => Or.inl rfl, answered_concat nofun h.answered⟩
    · exact h
  | resume => exact h.resume hc

/-! ## Runs -/

/-- **A closed relay** was asked to close, saw both sides match and stays open once opened, in
every run. -/
theorem justified_of_reachable {P : Running F → Move F → Prop} (h : (runs arith P).Reachable s) :
    Justified s.log ∧ StaysOff s.log := by
  have hclosing : s.Closing := by
    refine h.driven_invariant ?_ (fun s m hs _ => hs.move m)
    rintro _ ⟨p_str, ctrl_freq, rly_on_time_def, rfl⟩
    exact closing_start p_str ctrl_freq rly_on_time_def
  exact ⟨hclosing.justified, hclosing.justified.staysOff⟩

/-- **No request to open is lost** in a run that sets the OFF trigger in no window: once a call
is over that started after the request, the relay has been opened since. -/
theorem off_answered (h : (runs arith Clear).Reachable s) :
    Answered s.log ∧ StaysOff s.log ∧ Justified s.log := by
  have hopening : s.Closing ∧ s.Opening := by
    refine h.driven_invariant (Q := fun s => s.Closing ∧ s.Opening) ?_
      (fun s m hs hm => ⟨hs.1.move m, hs.2.move hs.1 hm⟩)
    rintro _ ⟨p_str, ctrl_freq, rly_on_time_def, rfl⟩
    exact ⟨closing_start p_str ctrl_freq rly_on_time_def,
      opening_start p_str ctrl_freq rly_on_time_def⟩
  exact ⟨hopening.2.answered, hopening.1.justified.staysOff, hopening.1.justified⟩

/-! ### A run -/

/-- No delay. -/
def demoArith : Arith Unit := ⟨fun _ _ _ => 0, fun _ _ => 0⟩

/-- An instance with no trigger set. -/
def demoStart : Running Unit :=
  start ⟨false, false, false, (), (), (), 0, 0, 0, 0, .init, false, true, true⟩ () ()

/-- Three calls after a request to close, up to the callback that closes the relay. -/
def demoClose : List (Move Unit) :=
  [.setOn, .call, .resume, .resume, .resume, .measure true (), .call, .resume, .resume, .resume,
    .call, .resume, .resume]

/-- A request to open after the call. -/
def demoAfter : List (Move Unit) :=
  demoClose ++
    ([.resume, .resume, .setOff, .call, .resume, .resume, .resume, .resume] : List (Move Unit))

/-- A request to open within the callback. -/
def demoWithin : List (Move Unit) :=
  demoClose ++ ([.setOff, .resume, .resume, .call, .resume, .resume] : List (Move Unit))

/-- The request after the call is answered. -/
theorem off_answered_demo : Answered (demoAfter.foldl (move demoArith) demoStart).log :=
  (off_answered (Lib.Transition.Admits.reachable (P := Clear) (by decide)
    (.start ⟨_, _, _, rfl⟩))).1

/-- The request within the callback is not. -/
theorem not_answered : ¬ ∀ moves : List (Move Unit),
    Answered (moves.foldl (move demoArith) demoStart).log := by
  intro h
  have hoff := h demoWithin
    [.onRequest, .callStart, .callEnd, .callStart, .equalSeen, .callEnd, .callStart, .rlyOn]
    [.callEnd] [] [] (by decide)
  exact absurd hoff (by decide)

end Running
end Atoman.RlyOn
