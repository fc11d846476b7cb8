import Mathlib.Data.List.Basic
import Mathlib.Tactic.Tauto

/-!
Deterministic systems driven by a list of inputs. A condition on single steps and
a property of states are lifted to whole runs, with the rules that carry an
invariant from one to the other.
-/

namespace ZeroTierNode.Library.Runs

variable {State Input : Type*} {step : State → Input → State} {ok : State → Input → Prop}
  {Property : State → Prop}

/-- The state after all inputs. -/
def run (step : State → Input → State) (start : State) (inputs : List Input) : State :=
  inputs.foldl step start

/-- Every step of the run meets `ok` in the state it is taken from. -/
def Along (step : State → Input → State) (ok : State → Input → Prop) : State → List Input → Prop
  | _, [] => True
  | state, input :: inputs => ok state input ∧ Along step ok (step state input) inputs

/-- Every state the run reaches, its start included, has the property. -/
def Throughout (step : State → Input → State) (Property : State → Prop) : State → List Input → Prop
  | state, [] => Property state
  | state, input :: inputs => Property state ∧ Throughout step Property (step state input) inputs

@[simp] theorem run_nil (start : State) : run step start [] = start := rfl

@[simp] theorem run_cons (start : State) (input : Input) (inputs : List Input) :
    run step start (input :: inputs) = run step (step start input) inputs := rfl

theorem run_append (start : State) (first second : List Input) :
    run step start (first ++ second) = run step (run step start first) second := List.foldl_append

theorem along_append (start : State) (first second : List Input) :
    Along step ok start (first ++ second) ↔
      Along step ok start first ∧ Along step ok (run step start first) second := by
  induction first generalizing start with
  | nil => simp [Along]
  | cons input first ih => simp only [List.cons_append, Along, run_cons, ih, and_assoc]

/-- An invariant of every step that meets the condition holds throughout such a run. -/
theorem throughout_of_along {start : State} {inputs : List Input}
    (preserved : ∀ state input, Property state → ok state input → Property (step state input))
    (initial : Property start) (along : Along step ok start inputs) :
    Throughout step Property start inputs := by
  induction inputs generalizing start with
  | nil => exact initial
  | cons input inputs ih =>
      exact ⟨initial, ih (preserved start input initial along.1) along.2⟩

/-- A property that every step preserves holds throughout every run. -/
theorem throughout_of_preserved {start : State} {inputs : List Input}
    (preserved : ∀ state input, Property state → Property (step state input)) (initial : Property start) :
    Throughout step Property start inputs := by
  induction inputs generalizing start with
  | nil => exact initial
  | cons input inputs ih => exact ⟨initial, ih (preserved start input initial)⟩

theorem Throughout.start {start : State} {inputs : List Input}
    (holds : Throughout step Property start inputs) : Property start := by
  cases inputs with
  | nil => exact holds
  | cons input inputs => exact holds.1

theorem Throughout.last {start : State} {inputs : List Input} (holds : Throughout step Property start inputs) :
    Property (run step start inputs) := by
  induction inputs generalizing start with
  | nil => exact holds
  | cons input inputs ih => exact ih holds.2

theorem Throughout.imp {Weaker : State → Prop} {start : State} {inputs : List Input}
    (holds : Throughout step Property start inputs) (weaker : ∀ state, Property state → Weaker state) :
    Throughout step Weaker start inputs := by
  induction inputs generalizing start with
  | nil => exact weaker start holds
  | cons input inputs ih => exact ⟨weaker start holds.1, ih holds.2⟩

/-- When a step keeps the property exactly if it meets the condition, so does a run; an invariant that no step
breaks may help. -/
theorem throughout_iff_along_of_invariant {Invariant : State → Prop} {start : State} {inputs : List Input}
    (kept : ∀ state input, Invariant state → Invariant (step state input))
    (exact_step : ∀ state input, Invariant state → Property state → (Property (step state input) ↔ ok state input))
    (initially : Invariant start) (initial : Property start) :
    Throughout step Property start inputs ↔ Along step ok start inputs := by
  induction inputs generalizing start with
  | nil => exact ⟨fun _ => trivial, fun _ => initial⟩
  | cons input inputs ih =>
      have next := exact_step start input initially initial
      constructor
      · intro holds
        have reached := holds.2.start
        exact ⟨next.mp reached, (ih (kept start input initially) reached).mp holds.2⟩
      · intro along
        have reached := next.mpr along.1
        exact ⟨initial, (ih (kept start input initially) reached).mpr along.2⟩

theorem throughout_iff_along {start : State} {inputs : List Input}
    (exact_step : ∀ state input, Property state → (Property (step state input) ↔ ok state input))
    (initial : Property start) :
    Throughout step Property start inputs ↔ Along step ok start inputs :=
  @throughout_iff_along_of_invariant _ _ _ _ _ (fun _ => True) _ _ (fun _ _ _ => trivial)
    (fun state input _ holds => exact_step state input holds) trivial initial

/-- Conditions that agree on every step taken under an invariant agree on runs. -/
theorem along_congr {first second : State → Input → Prop} {start : State} {inputs : List Input}
    (preserved : ∀ state input, Property state → ok state input → Property (step state input))
    (agree : ∀ state input, Property state → ok state input → (first state input ↔ second state input))
    (initial : Property start) (along : Along step ok start inputs) :
    Along step first start inputs ↔ Along step second start inputs := by
  induction inputs generalizing start with
  | nil => exact Iff.rfl
  | cons input inputs ih =>
      exact and_congr (agree start input initial along.1) (ih (preserved start input initial along.1) along.2)

/-- The same under an invariant that is kept by the steps that meet the first condition. -/
theorem along_iff_of_kept {first second : State → Input → Prop} {start : State} {inputs : List Input}
    (kept : ∀ state input, Property state → first state input → Property (step state input))
    (agree : ∀ state input, Property state → (first state input ↔ second state input)) (initial : Property start) :
    Along step first start inputs ↔ Along step second start inputs := by
  induction inputs generalizing start with
  | nil => exact Iff.rfl
  | cons input inputs ih =>
      have here := agree start input initial
      constructor
      · intro along
        exact ⟨here.mp along.1, (ih (kept start input initial along.1)).mp along.2⟩
      · intro along
        have meets := here.mpr along.1
        exact ⟨meets, (ih (kept start input initial meets)).mpr along.2⟩

/-- The same under an invariant that no step breaks. -/
theorem along_iff_of_invariant {first second : State → Input → Prop} {start : State} {inputs : List Input}
    (kept : ∀ state input, Property state → Property (step state input))
    (agree : ∀ state input, Property state → (first state input ↔ second state input)) (initial : Property start) :
    Along step first start inputs ↔ Along step second start inputs := by
  induction inputs generalizing start with
  | nil => exact Iff.rfl
  | cons input inputs ih => exact and_congr (agree start input initial) (ih (kept start input initial))

/-- Nothing needs to be asked of steps that preserve the property unconditionally. -/
theorem run_preserves {start : State} {inputs : List Input}
    (preserved : ∀ state input, Property state → Property (step state input))
    (initial : Property start) : Property (run step start inputs) := by
  induction inputs generalizing start with
  | nil => exact initial
  | cons input inputs ih => exact ih (preserved start input initial)

end ZeroTierNode.Library.Runs
