import Mathlib.Data.List.Basic

/-!
A writer that fills one batch after another: a full batch is closed when the next element
comes. Whatever counts as full, the closed batches and the open one hold the elements in
their order, and a bound that the guard protects holds of all of them.
-/

namespace ZeroTierNode.Library.Batches

/-- The closed batches and the open one. -/
structure Batching (α : Type*) where
  closed : List (List α)
  current : List α

variable {α : Type*} (full : List α → Bool)

/-- One more element. -/
def Batching.turn (b : Batching α) (x : α) : Batching α :=
  if full b.current then ⟨b.closed ++ [b.current], [x]⟩ else ⟨b.closed, b.current ++ [x]⟩

def Batching.run (b : Batching α) (xs : List α) : Batching α := xs.foldl (Batching.turn full) b

/-- An open batch is closed at the end if there is anything in it. -/
def Batching.finished (b : Batching α) : List (List α) := if b.current = [] then b.closed else b.closed ++ [b.current]

def batches (xs : List α) : List (List α) := (Batching.run full ⟨[], []⟩ xs).finished

variable {full}

theorem Batching.flatten_turn (b : Batching α) (x : α) :
    (b.turn full x).closed.flatten ++ (b.turn full x).current = b.closed.flatten ++ b.current ++ [x] := by
  unfold Batching.turn
  by_cases closes : full b.current = true
  · rw [if_pos closes, List.flatten_append, List.flatten_singleton]
  · rw [if_neg closes, List.append_assoc]

theorem Batching.flatten_run (b : Batching α) (xs : List α) :
    (b.run full xs).closed.flatten ++ (b.run full xs).current = b.closed.flatten ++ b.current ++ xs := by
  induction xs generalizing b with
  | nil =>
    rw [List.append_nil]
    rfl
  | cons x xs ih =>
    calc
      _ = (b.turn full x).closed.flatten ++ (b.turn full x).current ++ xs := ih (b.turn full x)
      _ = b.closed.flatten ++ b.current ++ [x] ++ xs := by rw [b.flatten_turn x]
      _ = b.closed.flatten ++ b.current ++ x :: xs := by rw [List.append_assoc _ [x], List.singleton_append]

theorem Batching.flatten_finished (b : Batching α) : b.finished.flatten = b.closed.flatten ++ b.current := by
  unfold Batching.finished
  by_cases none : b.current = []
  · rw [if_pos none, none, List.append_nil]
  · rw [if_neg none, List.flatten_append, List.flatten_singleton]

/-- Every element is in one batch, in the order in which they came. -/
theorem flatten_batches (xs : List α) : (batches full xs).flatten = xs := by
  rw [batches, Batching.flatten_finished, Batching.flatten_run]
  rfl

/-- All batches so far have a property; the open one may be empty. -/
structure Batching.Keeps (P : List α → Prop) (b : Batching α) : Prop where
  closed : ∀ batch ∈ b.closed, P batch
  current : b.current ≠ [] → P b.current

section Keeps

variable {P : List α → Prop} (opened : full [] = false) (more : ∀ batch x, full batch = false → P (batch ++ [x]))
include opened more

theorem Batching.Keeps.turn {b : Batching α} (keeps : b.Keeps P) (x : α) : (b.turn full x).Keeps P := by
  unfold Batching.turn
  by_cases closes : full b.current = true
  · rw [if_pos closes]
    have filled : b.current ≠ [] := by
      intro none
      rw [none, opened] at closes
      cases closes
    constructor
    · intro batch found
      cases List.mem_append.mp found with
      | inl earlier => exact keeps.closed batch earlier
      | inr last =>
        rw [List.mem_singleton.mp last]
        exact keeps.current filled
    · exact fun _ => more [] x opened
  · rw [if_neg closes]
    exact ⟨keeps.closed, fun _ => more b.current x (by simpa using closes)⟩

theorem Batching.Keeps.run {b : Batching α} (keeps : b.Keeps P) (xs : List α) : (b.run full xs).Keeps P := by
  induction xs generalizing b with
  | nil => exact keeps
  | cons x xs ih => exact ih (Batching.Keeps.turn opened more keeps x)

/-- A property of every batch with one element more than one that is not full. -/
theorem forall_batches (xs : List α) : ∀ batch ∈ batches full xs, P batch := by
  have start : Batching.Keeps P (⟨[], []⟩ : Batching α) :=
    ⟨fun batch found => absurd found List.not_mem_nil, fun filled => absurd rfl filled⟩
  have ended := Batching.Keeps.run opened more start xs
  intro batch found
  unfold batches Batching.finished at found
  by_cases none : (Batching.run full ⟨[], []⟩ xs).current = []
  · rw [if_pos none] at found
    exact ended.closed batch found
  · rw [if_neg none] at found
    cases List.mem_append.mp found with
    | inl earlier => exact ended.closed batch earlier
    | inr last =>
      rw [List.mem_singleton.mp last]
      exact ended.current none

end Keeps

end ZeroTierNode.Library.Batches
