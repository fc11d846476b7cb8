import Mathlib.Data.List.Range
import ZeroTierNode.Library.Bytes

/-!
Numbers by their bytes, least significant first.
-/

namespace ZeroTierNode.Library.LittleEndian
open Library.Bytes

/-- The number of the first `n` bytes. -/
def valueOf : Nat → (Nat → Byte) → Nat
  | 0, _ => 0
  | n + 1, bytes => (bytes 0).toNat + 256 * valueOf n fun i => bytes (i + 1)

/-- The `n` low-order bytes of a number. -/
def bytesOf (n value : Nat) : List Byte := (List.range n).map fun i => BitVec.ofNat 8 (value / 256 ^ i)

variable {bytes others : Nat → Byte}

theorem valueOf_lt (n : Nat) (bytes : Nat → Byte) : valueOf n bytes < 256 ^ n := by
  induction n generalizing bytes with
  | zero => exact Nat.one_pos
  | succ n ih =>
      have low := (bytes 0).isLt
      have high := ih fun i => bytes (i + 1)
      rw [valueOf, Nat.pow_succ]
      omega

theorem valueOf_congr {n : Nat} (same : ∀ i < n, bytes i = others i) : valueOf n bytes = valueOf n others := by
  induction n generalizing bytes others with
  | zero => rfl
  | succ n ih =>
      rw [valueOf, valueOf, same 0 (Nat.succ_pos n), ih fun i below => same (i + 1) (by omega)]

theorem valueOf_add (n k : Nat) (bytes : Nat → Byte) :
    valueOf (n + k) bytes = valueOf n bytes + 256 ^ n * valueOf k fun i => bytes (n + i) := by
  induction n generalizing bytes with
  | zero => simp only [Nat.zero_add, valueOf, Nat.pow_zero, Nat.one_mul]
  | succ n ih =>
      have shifted : (fun i => bytes (n + i + 1)) = fun i => bytes (n + 1 + i) := by
        funext i
        rw [Nat.add_right_comm]
      rw [Nat.add_right_comm, valueOf, ih, valueOf, shifted, Nat.pow_succ]
      ring

/-- Bytes in the middle of a number. -/
theorem valueOf_window (n k rest : Nat) (bytes : Nat → Byte) :
    (valueOf k fun i => bytes (n + i)) = valueOf (n + k + rest) bytes / 256 ^ n % 256 ^ k := by
  have low := valueOf_lt n bytes
  have middle := valueOf_lt k fun i => bytes (n + i)
  rw [Nat.add_assoc, valueOf_add, Nat.add_mul_div_left _ _ (Nat.pow_pos (by decide)), Nat.div_eq_of_lt low,
    Nat.zero_add, valueOf_add, Nat.add_mul_mod_self_left, Nat.mod_eq_of_lt middle]

/-- A zero behind the last byte. -/
theorem valueOf_zeros (n k : Nat) (zeros : ∀ i < k, bytes (n + i) = 0) : valueOf (n + k) bytes = valueOf n bytes := by
  have none : (valueOf k fun i => bytes (n + i)) = 0 := by
    have all : (valueOf k fun i => bytes (n + i)) = valueOf k fun _ => 0 := valueOf_congr zeros
    rw [all]
    clear all zeros
    induction k with
    | zero => rfl
    | succ k ih => rw [valueOf, ih]; rfl
  rw [valueOf_add, none, Nat.mul_zero, Nat.add_zero]

/-- A one behind the last byte. -/
theorem valueOf_marked (n k : Nat) (mark : bytes n = 1) (zeros : ∀ i < k, bytes (n + 1 + i) = 0) :
    valueOf (n + 1 + k) bytes = valueOf n bytes + 256 ^ n := by
  have one : (valueOf 1 fun i => bytes (n + i)) = 1 := by
    show (bytes n).toNat = 1
    rw [mark]
    rfl
  rw [valueOf_zeros (n + 1) k zeros, valueOf_add, one, Nat.mul_one]

theorem bytesOf_add (n k value : Nat) : bytesOf (n + k) value = bytesOf n value ++ bytesOf k (value / 256 ^ n) := by
  rw [bytesOf, bytesOf, bytesOf, List.range_add, List.map_append, List.map_map]
  congr 1
  apply List.map_congr_left
  intro i _
  rw [Function.comp_apply, Nat.div_div_eq_div_mul, Nat.pow_add]

/-- Only the low-order bytes count. -/
theorem bytesOf_mod (n value : Nat) : bytesOf n (value % 256 ^ n) = bytesOf n value := by
  apply List.map_congr_left
  intro i below
  have split : 256 ^ n = 256 ^ i * (256 * 256 ^ (n - 1 - i)) := by
    rw [← Nat.pow_succ', ← Nat.pow_add]
    congr 1
    have less := List.mem_range.mp below
    omega
  apply BitVec.eq_of_toNat_eq
  rw [BitVec.toNat_ofNat, BitVec.toNat_ofNat, split, Nat.mod_mul_right_div_self, Nat.mod_mul_right_mod]

end ZeroTierNode.Library.LittleEndian
