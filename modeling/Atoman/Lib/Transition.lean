/-!
# Reachable states

A transition system is a set of initial states and a step relation. An invariant
holds initially and is kept by every step from a reachable state; it then holds
in every reachable state. The induction is done here, once.
-/

namespace Atoman.Lib
universe u v

/-- Initial states and steps. -/
structure Transition (σ : Type u) where
  init : σ → Prop
  next : σ → σ → Prop

namespace Transition
variable {σ : Type u} (T : Transition σ)

/-- States that some run visits. -/
inductive Reachable : σ → Prop
  | start {s : σ} (h : T.init s) : Reachable s
  | step {s t : σ} (hs : Reachable s) (h : T.next s t) : Reachable t

/-- States visited from `s` on, in any number of steps. -/
inductive Steps (s : σ) : σ → Prop
  | refl : Steps s s
  | tail {t u : σ} (ht : Steps s t) (h : T.next t u) : Steps s u

variable {T}

/-- The invariant rule. -/
theorem Reachable.invariant {P : σ → Prop} (hinit : ∀ s, T.init s → P s)
    (hstep : ∀ s t, P s → T.next s t → P t) {s : σ} (h : T.Reachable s) : P s := by
  induction h with
  | start h => exact hinit _ h
  | step _ h ih => exact hstep _ _ ih h

/-- The invariant rule for what holds from a state on. -/
theorem Steps.invariant {P : σ → Prop} {s t : σ} (hs : P s)
    (hstep : ∀ t u, P t → T.next t u → P u) (h : T.Steps s t) : P t := by
  induction h with
  | refl => exact hs
  | tail _ h ih => exact hstep _ _ ih h

theorem Reachable.steps {s t : σ} (hs : T.Reachable s) (h : T.Steps s t) : T.Reachable t := by
  induction h with
  | refl => exact hs
  | tail _ h ih => exact .step ih h

/-- Where every event is a step, a list of events is a run. -/
theorem Reachable.foldl {ε : Type v} {exec : σ → ε → σ} (hnext : ∀ s e, T.next s (exec s e))
    (es : List ε) {s : σ} (hs : T.Reachable s) : T.Reachable (es.foldl exec s) := by
  induction es generalizing s with
  | nil => exact hs
  | cons e es ih => exact ih (.step hs (hnext s e))

/-! ## Systems driven by inputs -/

section Driven
variable {ι : Type v} (init : σ → Prop) (step : σ → ι → σ) (P : σ → ι → Prop)

/-- Each step takes an input; `P` says which inputs may come in which state. -/
def driven : Transition σ := ⟨init, fun s t => ∃ i, P s i ∧ t = step s i⟩

/-- The inputs may come, one after the other, from `s` on. -/
def Admits : σ → List ι → Prop
  | _, [] => True
  | s, i :: is => P s i ∧ Admits (step s i) is

instance decidableAdmits [∀ s i, Decidable (P s i)] : ∀ s is, Decidable (Admits step P s is)
  | _, [] => inferInstanceAs (Decidable True)
  | s, i :: is =>
    have := decidableAdmits (step s i) is
    inferInstanceAs (Decidable (_ ∧ _))

variable {init step P}

/-- The first inputs of a run are a run. -/
theorem Admits.left {s : σ} {is js : List ι} (h : Admits step P s (is ++ js)) :
    Admits step P s is := by
  induction is generalizing s with
  | nil => trivial
  | cons i is ih => exact ⟨h.1, ih h.2⟩

/-- The end of a run of inputs is reachable. -/
theorem Admits.reachable {s : σ} {is : List ι} (h : Admits step P s is)
    (hs : (driven init step P).Reachable s) : (driven init step P).Reachable (is.foldl step s) := by
  induction is generalizing s with
  | nil => exact hs
  | cons i is ih => exact ih h.2 (.step hs ⟨i, h.1, rfl⟩)

/-- A run of inputs goes on from the states visited before. -/
theorem Admits.steps {s t : σ} {is : List ι} (h : Admits step P t is)
    (hs : (driven init step P).Steps s t) : (driven init step P).Steps s (is.foldl step t) := by
  induction is generalizing t with
  | nil => exact hs
  | cons i is ih => exact ih h.2 (.tail hs ⟨i, h.1, rfl⟩)

/-- The invariant rule, input by input. -/
theorem Reachable.driven_invariant {Q : σ → Prop} (hinit : ∀ s, init s → Q s)
    (hstep : ∀ s i, Q s → P s i → Q (step s i)) {s : σ} (h : (driven init step P).Reachable s) :
    Q s := by
  refine h.invariant hinit ?_
  rintro s _ hs ⟨i, hi, rfl⟩
  exact hstep s i hs hi

end Driven
end Transition
end Atoman.Lib
