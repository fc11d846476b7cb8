import Mathlib.Data.List.Perm.Basic
import Mathlib.Data.List.Sort
import Mathlib.Data.List.Nodup

/-!
A sorting routine of which only the contract is known: its result holds the same
elements in ascending order of a key, and elements of one key may come out in any
order.
-/

namespace ZeroTierNode.Library

structure Sorting {α : Type} (key : α → Nat) where
  sort : List α → List α
  perm : ∀ elements, (sort elements).Perm elements
  ascending : ∀ elements, (sort elements).Pairwise (fun first second => key first ≤ key second)

namespace Sorting

variable {α : Type} {key : α → Nat} (sorting : Sorting key)

/-- With one element for each key, a list in ascending order is left as it is. -/
theorem sort_of_ascending {elements : List α} (distinct : (elements.map key).Nodup)
    (ascending : elements.Pairwise (fun first second => key first ≤ key second)) :
    sorting.sort elements = elements := by
  have same := sorting.perm elements
  apply same.eq_of_pairwise _ (sorting.ascending elements) ascending
  intro first second found other below above
  exact List.inj_on_of_nodup_map distinct (same.mem_iff.mp found) other (Nat.le_antisymm below above)

/-- Insertion sort keeps the contract. -/
def insertion (key : α → Nat) : Sorting key where
  sort := List.insertionSort (fun first second => key first ≤ key second)
  perm := List.perm_insertionSort _
  ascending := by
    intro elements
    have total : Std.Total (fun first second : α => key first ≤ key second) := ⟨fun _ _ => Nat.le_total _ _⟩
    have transitive : IsTrans α (fun first second => key first ≤ key second) := ⟨fun _ _ _ => Nat.le_trans⟩
    exact List.pairwise_insertionSort _ elements

end Sorting

end ZeroTierNode.Library
