import Mathlib.Algebra.BigOperators.Group.Finset.Basic
import Mathlib.Algebra.GroupWithZero.Nat
import Mathlib.Data.Finset.Card

/-!
A whole that is put together from pieces. Whoever only counts elements knows that
the whole is covered when the pieces are disjoint and lie inside it.
-/

namespace ZeroTierNode.Library.Coverage

variable {α : Type*} [DecidableEq α]

/-- What the pieces cover together. -/
def covered : List (Finset α) → Finset α
  | [] => ∅
  | piece :: pieces => piece ∪ covered pieces

/-- What the pieces count together. -/
def counted (pieces : List (Finset α)) : Nat := (pieces.map Finset.card).sum

theorem mem_covered {element : α} {pieces : List (Finset α)} :
    element ∈ covered pieces ↔ ∃ piece ∈ pieces, element ∈ piece := by
  induction pieces with
  | nil => simp [covered]
  | cons piece pieces ih => simp [covered, ih]

theorem covered_subset {pieces : List (Finset α)} {whole : Finset α}
    (inside : ∀ piece ∈ pieces, piece ⊆ whole) : covered pieces ⊆ whole := by
  intro element found
  obtain ⟨piece, member, here⟩ := mem_covered.mp found
  exact inside piece member here

/-- Disjoint pieces are counted exactly. -/
theorem card_covered {pieces : List (Finset α)} (disjoint : pieces.Pairwise Disjoint) :
    (covered pieces).card = counted pieces := by
  induction pieces with
  | nil => rfl
  | cons piece pieces ih =>
      obtain ⟨first, rest⟩ := List.pairwise_cons.mp disjoint
      have apart : Disjoint piece (covered pieces) := by
        rw [Finset.disjoint_left]
        intro element here later
        obtain ⟨other, member, there⟩ := mem_covered.mp later
        exact Finset.disjoint_left.mp (first other member) here there
      rw [covered, Finset.card_union_of_disjoint apart, ih rest, counted, counted, List.map_cons, List.sum_cons]

theorem counted_le_card {pieces : List (Finset α)} {whole : Finset α} (disjoint : pieces.Pairwise Disjoint)
    (inside : ∀ piece ∈ pieces, piece ⊆ whole) : counted pieces ≤ whole.card := by
  rw [← card_covered disjoint]
  exact Finset.card_le_card (covered_subset inside)

/-- Disjoint pieces of a whole that count as many elements as it has leave none out. -/
theorem covered_eq_of_counted {pieces : List (Finset α)} {whole : Finset α} (disjoint : pieces.Pairwise Disjoint)
    (inside : ∀ piece ∈ pieces, piece ⊆ whole) (complete : counted pieces = whole.card) :
    covered pieces = whole := by
  apply Finset.eq_of_subset_of_card_le (covered_subset inside)
  rw [card_covered disjoint, complete]

end ZeroTierNode.Library.Coverage
