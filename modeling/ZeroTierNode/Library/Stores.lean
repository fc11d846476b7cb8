import Mathlib.Data.List.Basic
import ZeroTierNode.Library.Bytes

/-!
Arrays that are written to one byte after another. A store outside an array is a
fault, which the caller cannot go on from.
-/

namespace ZeroTierNode.Library.Stores
open Library.Bytes

/-- `array[i] = b`; `none` outside the array. -/
def store (array : List Byte) (i : Nat) (b : Byte) : Option (List Byte) :=
  if i < array.length then some (array.set i b) else none

/-- Store bytes from `i` on and stop when the array is full. Whether all were stored and one more would fit. -/
def fill (array : List Byte) (i : Nat) : List Byte → Option (List Byte × Bool)
  | [] => some (array, true)
  | b :: rest => do
      let array ← store array i b
      if i + 1 = array.length then some (array, false) else fill array (i + 1) rest

theorem store_append (front back : List Byte) (old b : Byte) :
    store (front ++ old :: back) front.length b = some (front ++ b :: back) := by
  have inside : front.length < (front ++ old :: back).length := by simp
  rw [store, if_pos inside, List.set_append_right _ _ (Nat.le_refl _), Nat.sub_self, List.set_cons_zero]

theorem fill_fits {bytes : List Byte} (front back : List Byte) (room : bytes.length < back.length) :
    fill (front ++ back) front.length bytes = some (front ++ bytes ++ back.drop bytes.length, true) := by
  induction bytes generalizing front back with
  | nil => simp [fill]
  | cons b bytes ih =>
      cases back with
      | nil => cases room
      | cons old back =>
          have more : ¬ front.length + 1 = (front ++ b :: back).length := by
            simp only [List.length_cons, List.length_append] at room ⊢
            omega
          have next := ih (front ++ [b]) back (Nat.lt_of_succ_lt_succ room)
          rw [List.length_append, List.length_singleton, List.append_assoc, List.singleton_append] at next
          rw [fill, store_append]
          calc (do
                let array ← some (front ++ b :: back)
                if front.length + 1 = array.length then some (array, false) else fill array (front.length + 1) bytes)
              = fill (front ++ b :: back) (front.length + 1) bytes := if_neg more
            _ = some (front ++ b :: bytes ++ (old :: back).drop (bytes.length + 1), true) := by
                rw [next]
                simp

theorem fill_full {bytes : List Byte} (front back : List Byte) (some_room : back ≠ [])
    (short : back.length ≤ bytes.length) :
    fill (front ++ back) front.length bytes = some (front ++ bytes.take back.length, false) := by
  induction bytes generalizing front back with
  | nil => exact absurd (List.length_eq_zero_iff.mp (Nat.le_zero.mp short)) some_room
  | cons b bytes ih =>
      cases back with
      | nil => exact absurd rfl some_room
      | cons old back =>
          rw [fill, store_append]
          by_cases last : back = []
          · subst last
            have full : front.length + 1 = (front ++ [b]).length := by simp
            exact (if_pos full).trans (by simp)
          · have more : ¬ front.length + 1 = (front ++ b :: back).length := by
              have positive := List.length_pos_of_ne_nil last
              simp only [List.length_cons, List.length_append]
              omega
            have next := ih (front ++ [b]) back last (Nat.le_of_succ_le_succ short)
            rw [List.length_append, List.length_singleton, List.append_assoc, List.singleton_append] at next
            calc (do
                  let array ← some (front ++ b :: back)
                  if front.length + 1 = array.length then some (array, false) else fill array (front.length + 1) bytes)
                = fill (front ++ b :: back) (front.length + 1) bytes := if_neg more
              _ = some (front ++ (b :: bytes).take (old :: back).length, false) := by
                  rw [next]
                  simp

end ZeroTierNode.Library.Stores
