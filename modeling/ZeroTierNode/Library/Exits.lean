import Mathlib.Tactic.Common

/-!
Programs over a state that may end early. An exception leaves the state as it is at
that moment, so that a program is judged by the states in which it returns and by
those in which it exits.
-/

namespace ZeroTierNode.Library.Exits

variable {Exit State α β : Type}

/-- From `start`, the program returns with `returned` or exits with `exited`. -/
def Ends (program : EStateM Exit State α) (start : State) (returned : α → State → Prop)
    (exited : Exit → State → Prop) : Prop :=
  match program start with
  | .ok value after => returned value after
  | .error exit after => exited exit after

/-- The state in which a program ends. -/
def stateAfter : EStateM.Result Exit State α → State
  | .ok _ after => after
  | .error _ after => after

/-- Reading a value that may not be there. -/
def orExit (exit : Exit) : Option α → EStateM Exit State α
  | some value => pure value
  | none => throw exit

variable {start : State} {returned : α → State → Prop} {exited : Exit → State → Prop}

theorem ends_pure {value : α} (holds : returned value start) :
    Ends (pure value : EStateM Exit State α) start returned exited := holds

theorem ends_orExit {exit : Exit} {value : Option α} (none : value = none → exited exit start)
    (some : ∀ found, value = some found → returned found start) : Ends (orExit exit value) start returned exited := by
  cases value with
  | none => exact none rfl
  | some found => exact some found rfl

theorem ends_bind {program : EStateM Exit State α} {next : α → EStateM Exit State β} {finished : β → State → Prop}
    (first : Ends program start returned exited)
    (second : ∀ value after, returned value after → Ends (next value) after finished exited) :
    Ends (program >>= next) start finished exited := by
  change Ends (EStateM.bind program next) start finished exited
  unfold Ends EStateM.bind
  unfold Ends at first
  cases ran : program start with
  | ok value after =>
      rw [ran] at first
      exact second value after first
  | error exit after =>
      rw [ran] at first
      exact first

theorem Ends.imp {program : EStateM Exit State α} {returned' : α → State → Prop} {exited' : Exit → State → Prop}
    (ends : Ends program start returned exited) (returns : ∀ value after, returned value after → returned' value after)
    (exits : ∀ exit after, exited exit after → exited' exit after) : Ends program start returned' exited' := by
  unfold Ends at ends ⊢
  cases ran : program start with
  | ok value after =>
      rw [ran] at ends
      exact returns value after ends
  | error exit after =>
      rw [ran] at ends
      exact exits exit after ends

/-- The consequence for the state in which the program ends. -/
theorem Ends.stateAfter {Property : State → Prop} {program : EStateM Exit State α}
    (ends : Ends program start (fun _ => Property) (fun _ => Property)) : Property (stateAfter (program start)) := by
  unfold Ends at ends
  cases ran : program start with
  | ok value after =>
      rw [ran] at ends
      exact ends
  | error exit after =>
      rw [ran] at ends
      exact ends

end ZeroTierNode.Library.Exits
