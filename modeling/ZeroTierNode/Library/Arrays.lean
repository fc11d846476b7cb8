import ZeroTierNode.Library.Accesses

/-!
Arrays of a fixed size. The size is part of the type, and every access through an
index says whether the index is inside.
-/

namespace ZeroTierNode.Library.Arrays
open Library.Accesses

variable {α : Type} {n : Nat}

def load (array : Vector α n) (i : Nat) : Access α :=
  if inside : i < n then .ok array[i] else .error .outOfBounds

def store (array : Vector α n) (i : Nat) (value : α) : Access (Vector α n) :=
  if inside : i < n then .ok (array.set i value) else .error .outOfBounds

/-- Store values one after another from `i` on. -/
def copyTo (array : Vector α n) (i : Nat) : List α → Access (Vector α n)
  | [] => .ok array
  | value :: values => do
      let array ← store array i value
      copyTo array (i + 1) values

theorem load_inside (array : Vector α n) {i : Nat} (inside : i < n) : load array i = .ok array[i] := dif_pos inside

theorem load_outside (array : Vector α n) {i : Nat} (beyond : n ≤ i) : load array i = .error .outOfBounds :=
  dif_neg (Nat.not_lt.mpr beyond)

theorem store_inside (array : Vector α n) {i : Nat} (value : α) (inside : i < n) :
    store array i value = .ok (array.set i value) := dif_pos inside

/-- What is copied into an array: what stood in front and behind it stays. -/
theorem copyTo_inside {array : Vector α n} {i : Nat} {values : List α} (inside : i + values.length ≤ n) :
    ∃ copied, copyTo array i values = .ok copied ∧
      copied.toList = array.toList.take i ++ values ++ array.toList.drop (i + values.length) := by
  induction values generalizing array i with
  | nil => exact ⟨array, rfl, by simp⟩
  | cons value values ih =>
      rw [List.length_cons] at inside
      have here : i < n := by omega
      obtain ⟨copied, rest, contents⟩ := @ih (array.set i value) (i + 1) (by omega)
      refine ⟨copied, ?_, ?_⟩
      · rw [copyTo, store_inside array value here]
        exact rest
      · have front : (array.toList.set i value).take (i + 1) = array.toList.take i ++ [value] := by
          rw [List.take_add_one, List.take_set_of_le (Nat.le_refl i), List.getElem?_set_self (by simpa using here)]
          rfl
        have behind : (array.toList.set i value).drop (i + 1 + values.length) =
            array.toList.drop (i + (value :: values).length) := by
          rw [List.drop_set_of_lt (by omega), List.length_cons]
          congr 1
          omega
        rw [contents, Vector.toList_set, front, behind, List.append_assoc (array.toList.take i)]
        rfl

theorem copyTo_outside {array : Vector α n} {i : Nat} {values : List α} (start : i ≤ n) (outside : n < i + values.length) :
    copyTo array i values = .error .outOfBounds := by
  induction values generalizing array i with
  | nil =>
    rw [List.length_nil] at outside
    omega
  | cons value values ih =>
    rw [List.length_cons] at outside
    by_cases here : i < n
    · rw [copyTo, store_inside array value here]
      exact ih here (by omega)
    · rw [copyTo, store, dif_neg here]
      rfl

end ZeroTierNode.Library.Arrays
