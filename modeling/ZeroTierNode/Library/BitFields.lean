import ZeroTierNode.Library.Bytes

/-!
Integers of some bits inside longer ones. The low bits of a number and the bits of
the same count at another place are both free to be any value, so that no range but
the empty and the full one holds them both or neither.
-/

namespace ZeroTierNode.Library.BitFields
open Library.Bytes

/-- The number written least significant byte first. -/
def littleEndianValue (bytes : List Byte) : Nat := bigEndianValue bytes.reverse

theorem littleEndianValue_concat (bytes : List Byte) (byte : Byte) :
    littleEndianValue (bytes ++ [byte]) = byte.toNat * 256 ^ bytes.length + littleEndianValue bytes := by
  have alone : bigEndianValue [byte] = byte.toNat := by simp [bigEndianValue]
  rw [littleEndianValue, List.reverse_append, List.reverse_singleton, bigEndianValue_append, alone, List.length_reverse]
  rfl

theorem littleEndianValue_lt (bytes : List Byte) : littleEndianValue bytes < 256 ^ bytes.length := by
  have bound := bigEndianValue_lt bytes.reverse
  rwa [List.length_reverse] at bound

theorem littleEndianValue_reverse (count value : Nat) :
    littleEndianValue (bigEndian count value).reverse = value % 256 ^ count := by
  rw [littleEndianValue, List.reverse_reverse, bigEndianValue_bigEndian]

/-- Some number shows a range apart by its low part and by the part further up, if the range holds some
values of the size of these parts and leaves some out. -/
theorem parts_detect {size factor low high : Nat} (apart : 2 ≤ factor) (holds : low < size) (range : low ≤ high)
    (proper : ¬ (low = 0 ∧ size - 1 ≤ high)) :
    ∃ number < size * factor,
      ¬ ((low ≤ number % size ∧ number % size ≤ high) ↔
        (low ≤ number / factor % size ∧ number / factor % size ≤ high)) := by
  have room : size * 2 ≤ size * factor := Nat.mul_le_mul_left _ apart
  by_cases zero : low = 0
  · have cut : high < size - 1 := Nat.lt_of_not_le fun full => proper ⟨zero, full⟩
    have least (value : Nat) : low ≤ value := zero ▸ Nat.zero_le value
    by_cases inside : (size - 1) / factor ≤ high
    · -- the last value of the low part: above the range, and shifted inside it
      have below : (size - 1) / factor ≤ size - 1 := Nat.div_le_self _ _
      refine ⟨size - 1, by omega, ?_⟩
      rw [Nat.mod_eq_of_lt (by omega), Nat.mod_eq_of_lt (by omega)]
      intro both
      have wrong := (both.mpr ⟨least _, inside⟩).2
      omega
    · -- the first value beyond the low part: low part zero, and shifted above the range
      have above : (size - 1) / factor ≤ size / factor := Nat.div_le_div_right (Nat.sub_le _ _)
      have below : size / factor < size := Nat.div_lt_self (by omega) (by omega)
      refine ⟨size, by omega, ?_⟩
      rw [Nat.mod_self, Nat.mod_eq_of_lt below]
      intro both
      have wrong := (both.mp ⟨least _, Nat.zero_le _⟩).2
      omega
  · -- the lower bound itself: inside the range, and shifted below it
    have below : low / factor < low := Nat.div_lt_self (by omega) (by omega)
    refine ⟨low, by omega, ?_⟩
    rw [Nat.mod_eq_of_lt holds, Nat.mod_eq_of_lt (by omega)]
    intro both
    have wrong := (both.mp ⟨Nat.le_refl _, range⟩).1
    omega

end ZeroTierNode.Library.BitFields
