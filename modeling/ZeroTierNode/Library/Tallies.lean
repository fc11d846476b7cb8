import Mathlib.Data.List.Count
import Mathlib.Data.List.Induction
import Mathlib.Logic.Function.Basic

/-!
Counting votes in one pass: the candidate in front is replaced when another one gets
more votes than it has.
-/

namespace ZeroTierNode.Library.Tallies

variable {α : Type*} [DecidableEq α]

/-- The votes so far, with the candidate in front and what it has. -/
structure Tally (α : Type*) where
  counts : α → Nat
  leader : α
  most : Nat

namespace Tally

/-- No votes; anyone is in front. -/
def start (leader : α) : Tally α := ⟨fun _ => 0, leader, 0⟩

def add (t : Tally α) (a : α) : Tally α :=
  if t.most < t.counts a + 1 then ⟨Function.update t.counts a (t.counts a + 1), a, t.counts a + 1⟩
  else { t with counts := Function.update t.counts a (t.counts a + 1) }

/-- What a tally says of the votes. -/
structure Counted (t : Tally α) (votes : List α) : Prop where
  counts : ∀ a, t.counts a = votes.count a
  most : t.most = votes.count t.leader
  bound : ∀ a, votes.count a ≤ t.most

theorem counted_start (leader : α) : Counted (start leader) [] where
  counts := fun a => by simp [start]
  most := by simp [start]
  bound := fun a => by simp

theorem counts_add (t : Tally α) (a : α) : (t.add a).counts = Function.update t.counts a (t.counts a + 1) := by
  unfold add
  split <;> rfl

theorem Counted.add {t : Tally α} {votes : List α} (counted : Counted t votes) (a : α) :
    Counted (t.add a) (votes ++ [a]) := by
  have counts : ∀ b, (t.add a).counts b = (votes ++ [a]).count b := by
    intro b
    rw [counts_add, List.count_append]
    by_cases same : b = a
    · simp [same, counted.counts]
    · simp [Function.update_of_ne same, counted.counts, Ne.symm same]
  have grown : (votes ++ [a]).count a = t.counts a + 1 := by simp [counted.counts]
  have other : ∀ b, b ≠ a → (votes ++ [a]).count b = votes.count b := by
    intro b different
    simp [List.count_append, Ne.symm different]
  by_cases ahead : t.most < t.counts a + 1
  · have made : t.add a = ⟨Function.update t.counts a (t.counts a + 1), a, t.counts a + 1⟩ := if_pos ahead
    refine ⟨counts, ?_, fun b => ?_⟩
    · simp [made, grown]
    · by_cases same : b = a
      · simp [made, same, grown]
      · have bound := counted.bound b
        rw [made, other b same]
        show votes.count b ≤ t.counts a + 1
        omega
  · have made : t.add a = { t with counts := Function.update t.counts a (t.counts a + 1) } := if_neg ahead
    have behind : t.leader ≠ a := by
      intro same
      have most := counted.most
      rw [same, ← counted.counts] at most
      omega
    refine ⟨counts, ?_, fun b => ?_⟩
    · rw [made]
      show t.most = (votes ++ [a]).count t.leader
      rw [other _ behind, counted.most]
    · rw [made]
      show (votes ++ [a]).count b ≤ t.most
      by_cases same : b = a
      · rw [same, grown]
        omega
      · rw [other b same]
        exact counted.bound b

theorem counted_foldl (leader : α) (votes : List α) : Counted (votes.foldl Tally.add (start leader)) votes := by
  induction votes using List.reverseRecOn with
  | nil => exact counted_start leader
  | append_singleton votes a ih =>
      rw [List.foldl_append, List.foldl_cons, List.foldl_nil]
      exact ih.add a

end Tally

end ZeroTierNode.Library.Tallies
