import ZeroTierNode.Library.Runs

/-!
Systems that report events, watched by a monitor. The monitor keeps a ledger of
what it saw and gives up at the first event that breaks its law; a run is lawful
when the monitor never gives up.
-/

namespace ZeroTierNode.Library.Monitor
open Runs

variable {State Input Event Ledger : Type*}

/-- Feed events to a monitor; `none` once one of them breaks the law. -/
def watchAll (watch : Ledger → Event → Option Ledger) (ledger : Ledger) (events : List Event) :
    Option Ledger :=
  events.foldlM watch ledger

section WatchAll

variable {watch : Ledger → Event → Option Ledger} {ledger : Ledger}

@[simp] theorem watchAll_nil : watchAll watch ledger [] = some ledger := rfl

@[simp] theorem watchAll_cons (event : Event) (events : List Event) :
    watchAll watch ledger (event :: events) =
      (watch ledger event).bind (fun after => watchAll watch after events) := by
  simp only [watchAll, List.foldlM_cons, Option.bind_eq_bind]

theorem watchAll_append (first second : List Event) :
    watchAll watch ledger (first ++ second) =
      (watchAll watch ledger first).bind (fun after => watchAll watch after second) := by
  simp only [watchAll, List.foldlM_append, Option.bind_eq_bind]

/-- Events that leave the ledger as it is. -/
theorem watchAll_ignored {events : List Event} (ignored : ∀ event ∈ events, watch ledger event = some ledger) :
    watchAll watch ledger events = some ledger := by
  induction events with
  | nil => rfl
  | cons event events ih =>
      rw [watchAll_cons, ignored event List.mem_cons_self, Option.bind_some]
      exact ih (fun later member => ignored later (List.mem_cons_of_mem _ member))

end WatchAll

/-- A system and the ledger of what it did so far. -/
structure Watched (State Ledger : Type*) where
  state : State
  ledger : Option Ledger

/-- One input to the system, its events going to the monitor. -/
def step (react : State → Input → State × List Event) (watch : Input → Ledger → Event → Option Ledger)
    (system : Watched State Ledger) (input : Input) : Watched State Ledger :=
  let (state, events) := react system.state input
  ⟨state, system.ledger.bind (fun ledger => watchAll (watch input) ledger events)⟩

/-- No event so far broke the law. -/
def Lawful (system : Watched State Ledger) : Prop := system.ledger.isSome = true

/-- A condition on the system and its ledger before a step. -/
def Meets (condition : State → Ledger → Input → Prop) (system : Watched State Ledger) (input : Input) :
    Prop :=
  ∀ ledger, system.ledger = some ledger → condition system.state ledger input

/-- A monitor accepts every run that keeps an invariant between the system and the ledger. -/
theorem lawful_of_invariant {react : State → Input → State × List Event}
    {watch : Input → Ledger → Event → Option Ledger} {condition : State → Ledger → Input → Prop}
    {Invariant : State → Ledger → Prop} {state : State} {ledger : Ledger} {inputs : List Input}
    (preserved : ∀ state ledger input, Invariant state ledger → condition state ledger input →
      ∃ after, watchAll (watch input) ledger (react state input).2 = some after ∧
        Invariant (react state input).1 after)
    (initial : Invariant state ledger)
    (along : Along (step react watch) (Meets condition) ⟨state, some ledger⟩ inputs) :
    Throughout (step react watch) Lawful ⟨state, some ledger⟩ inputs := by
  have sound : Throughout (step react watch)
      (fun system => ∃ ledger, system.ledger = some ledger ∧ Invariant system.state ledger)
      ⟨state, some ledger⟩ inputs := by
    refine throughout_of_along ?_ ⟨ledger, rfl, initial⟩ along
    rintro system input ⟨held, same, invariant⟩ meets
    obtain ⟨after, watched, kept⟩ := preserved system.state held input invariant (meets held same)
    refine ⟨after, ?_, kept⟩
    simp only [step, same, Option.bind_some, watched]
  refine sound.imp ?_
  rintro system ⟨held, same, -⟩
  rw [Lawful, same]
  rfl

end ZeroTierNode.Library.Monitor
