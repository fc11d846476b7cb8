import Mathlib.Data.List.Basic
import Mathlib.Tactic.ByContra

/-!
Code that returns, throws or ends the process, with a log of the calls it makes of
one function. When every single call aborts exactly if it is not safe, so does any
code that is composed of such calls, of code that only throws, and of handlers.
-/

namespace ZeroTierNode.Library.Outcomes

inductive Outcome (α : Type)
  | returned (value : α)
  | threw
  | aborted
deriving DecidableEq

/-- An outcome and the calls that led to it. -/
structure Logged (Call α : Type) where
  outcome : Outcome α
  calls : List Call

namespace Logged

variable {Call α β : Type}

def pure (value : α) : Logged Call α := ⟨.returned value, []⟩

def bind (first : Logged Call α) (next : α → Logged Call β) : Logged Call β :=
  match first.outcome with
  | .returned value => ⟨(next value).outcome, first.calls ++ (next value).calls⟩
  | .threw => ⟨.threw, first.calls⟩
  | .aborted => ⟨.aborted, first.calls⟩

instance : Monad (Logged Call) where
  pure := Logged.pure
  bind := Logged.bind

def throw : Logged Call α := ⟨.threw, []⟩

/-- Code that makes no calls and throws where it has no value. -/
def ofOption (value : Option α) : Logged Call α := ⟨value.elim .threw .returned, []⟩

/-- `catch (...)`: what is thrown becomes a value. -/
def guarded (caught : α) (body : Logged Call α) : Logged Call α :=
  match body.outcome with
  | .threw => ⟨.returned caught, body.calls⟩
  | _ => body

/-- The code aborts exactly if one of its calls is not safe. -/
def Sound (safe : Call → Prop) (code : Logged Call α) : Prop :=
  code.outcome = .aborted ↔ ∃ call ∈ code.calls, ¬ safe call

variable {safe : Call → Prop}

theorem sound_pure (value : α) : Sound safe (Pure.pure value : Logged Call α) := by
  change Outcome.returned value = .aborted ↔ ∃ call ∈ [], ¬ safe call
  simp

theorem sound_throw : Sound safe (throw : Logged Call α) := by
  change Outcome.threw = (.aborted : Outcome α) ↔ ∃ call ∈ [], ¬ safe call
  simp

theorem sound_ofOption (value : Option α) : Sound safe (ofOption value : Logged Call α) := by
  cases value with
  | none => exact sound_throw
  | some value => exact sound_pure value

theorem sound_bind {first : Logged Call α} {next : α → Logged Call β} (here : Sound safe first)
    (there : ∀ value, Sound safe (next value)) : Sound safe (first >>= next) := by
  change Sound safe (Logged.bind first next)
  unfold Logged.bind
  unfold Sound at here
  cases ended : first.outcome with
  | returned value =>
      have fine : ∀ call ∈ first.calls, safe call := by
        intro call found
        by_contra bad
        rw [here.mpr ⟨call, found, bad⟩] at ended
        cases ended
      have later := there value
      unfold Sound at later
      change (next value).outcome = .aborted ↔ ∃ call ∈ first.calls ++ (next value).calls, ¬ safe call
      rw [later]
      constructor
      · rintro ⟨call, found, bad⟩
        exact ⟨call, List.mem_append_right _ found, bad⟩
      · rintro ⟨call, found, bad⟩
        rcases List.mem_append.mp found with earlier | found
        · exact absurd (fine call earlier) bad
        · exact ⟨call, found, bad⟩
  | threw =>
      rw [ended] at here
      exact ⟨fun impossible => (by cases impossible), fun wrong => (by cases here.mpr wrong)⟩
  | aborted =>
      rw [ended] at here
      exact ⟨fun _ => here.mp rfl, fun _ => rfl⟩

theorem sound_guarded {caught : α} {body : Logged Call α} (sound : Sound safe body) :
    Sound safe (guarded caught body) := by
  unfold Sound at sound ⊢
  unfold guarded
  cases ended : body.outcome with
  | returned value =>
      dsimp only
      exact sound
  | threw =>
      rw [ended] at sound
      exact ⟨fun impossible => (by cases impossible), fun wrong => (by cases sound.mpr wrong)⟩
  | aborted =>
      dsimp only
      exact sound

theorem guarded_ne_threw (caught : α) (body : Logged Call α) : (guarded caught body).outcome ≠ .threw := by
  unfold guarded
  cases ended : body.outcome with
  | returned value =>
      dsimp only
      rw [ended]
      exact fun impossible => by cases impossible
  | threw => exact fun impossible => by cases impossible
  | aborted =>
      dsimp only
      rw [ended]
      exact fun impossible => by cases impossible

theorem bind_pure_ne_threw {first : Logged Call α} {next : α → β} (here : first.outcome ≠ .threw) :
    (first >>= fun value => (Pure.pure (next value) : Logged Call β)).outcome ≠ .threw := by
  change (Logged.bind first _).outcome ≠ .threw
  unfold Logged.bind
  cases ended : first.outcome with
  | returned value => exact fun impossible => by cases impossible
  | threw => exact absurd ended here
  | aborted => exact fun impossible => by cases impossible

/-- Code that returns has come through each of its parts. -/
theorem bind_returned {first : Logged Call α} {next : α → Logged Call β} {result : β}
    (returned : (first >>= next).outcome = .returned result) :
    ∃ value, first.outcome = .returned value ∧ (next value).outcome = .returned result := by
  change (Logged.bind first next).outcome = .returned result at returned
  unfold Logged.bind at returned
  cases ended : first.outcome with
  | returned value =>
      rw [ended] at returned
      exact ⟨value, rfl, returned⟩
  | threw =>
      rw [ended] at returned
      cases returned
  | aborted =>
      rw [ended] at returned
      cases returned

/-- Behind code that returns, the outcome is that of the rest. -/
theorem outcome_bind {first : Logged Call α} {value : α} (returned : first.outcome = .returned value)
    (next : α → Logged Call β) : (first >>= next).outcome = (next value).outcome := by
  change (Logged.bind first next).outcome = (next value).outcome
  unfold Logged.bind
  rw [returned]

theorem ofOption_outcome {value : Option α} {result : α} (found : value = some result) :
    (ofOption value : Logged Call α).outcome = .returned result := by
  rw [found]
  rfl

theorem ofOption_returned {value : Option α} {result : α}
    (returned : (ofOption value : Logged Call α).outcome = .returned result) : value = some result := by
  cases value with
  | none => cases returned
  | some value =>
      cases returned
      rfl

/-- Code that does not throw returns exactly if all of its calls are safe. -/
theorem returns_iff {code : Logged Call α} (sound : Sound safe code) (caughtAll : code.outcome ≠ .threw) :
    (∃ value, code.outcome = .returned value) ↔ ∀ call ∈ code.calls, safe call := by
  unfold Sound at sound
  constructor
  · rintro ⟨value, returned⟩ call found
    by_contra bad
    rw [sound.mpr ⟨call, found, bad⟩] at returned
    cases returned
  · intro fine
    cases ended : code.outcome with
    | returned value => exact ⟨value, rfl⟩
    | threw => exact absurd ended caughtAll
    | aborted =>
        obtain ⟨call, found, bad⟩ := sound.mp ended
        exact absurd (fine call found) bad

end Logged

end ZeroTierNode.Library.Outcomes
