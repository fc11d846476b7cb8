import Mathlib.Algebra.BigOperators.Group.List.Basic
import ZeroTierNode.Library.Bytes

/-!
Checksums of 16-bit words in one's complement arithmetic: the carries of the sum are
added to its low half until there are none, and a packet that holds the complement of
the rest adds up to ones.
-/

namespace ZeroTierNode.Library.OnesComplement
open Bytes

/-- The big-endian words of a string of even length. -/
def words : List Byte → List Nat
  | high :: low :: bytes => (256 * high.toNat + low.toNat) :: words bytes
  | _ => []

/-- `while (sum >> 16) sum = (sum & 0xffff) + (sum >> 16)`. -/
def fold (sum : Nat) : Nat := if sum / 65536 = 0 then sum else fold (sum % 65536 + sum / 65536)
termination_by sum
decreasing_by omega

/-- The words add up to ones. -/
def Verifies (bytes : List Byte) : Prop := fold (words bytes).sum = 65535

section Folding

variable {sum : Nat}

theorem fold_lt (sum : Nat) : fold sum < 65536 := by
  induction sum using fold.induct with
  | case1 sum small =>
      rw [fold, if_pos small]
      omega
  | case2 sum large ih =>
      rw [fold, if_neg large]
      exact ih

/-- Folding keeps the residue, and does not lead to zero. -/
theorem fold_mod (sum : Nat) : fold sum % 65535 = sum % 65535 ∧ (0 < sum → 0 < fold sum) := by
  induction sum using fold.induct with
  | case1 sum small =>
      rw [fold, if_pos small]
      exact ⟨rfl, id⟩
  | case2 sum large ih =>
      rw [fold, if_neg large]
      constructor
      · rw [ih.1]
        omega
      · intro positive
        exact ih.2 (by omega)

theorem fold_eq_ones (positive : 0 < sum) (divides : sum % 65535 = 0) : fold sum = 65535 := by
  have small := fold_lt sum
  obtain ⟨same, nonzero⟩ := fold_mod sum
  have some := nonzero positive
  omega

/-- The complement of a folded sum makes up for the sum. -/
theorem fold_add_complement (sum : Nat) : fold (sum + (65535 - fold sum)) = 65535 := by
  have small := fold_lt sum
  obtain ⟨same, nonzero⟩ := fold_mod sum
  apply fold_eq_ones
  · by_cases none : sum = 0
    · subst none
      rw [fold]
      decide
    · omega
  · omega

end Folding

section Words

theorem words_append {first second : List Byte} (even : first.length % 2 = 0) :
    words (first ++ second) = words first ++ words second := by
  induction first using words.induct with
  | case1 high low bytes ih =>
      have rest : bytes.length % 2 = 0 := by
        simp only [List.length_cons] at even
        omega
      simp only [List.cons_append, words, ih rest]
  | case2 bytes short =>
      cases bytes with
      | nil => rfl
      | cons high bytes =>
          cases bytes with
          | nil => simp at even
          | cons low bytes => exact absurd rfl (short high low bytes)

theorem words_wordBytes (value : BitVec 16) : words (wordBytes 2 value) = [value.toNat] := by
  have below := value.isLt
  simp only [wordBytes, bigEndian, words, BitVec.toNat_ofNat, List.cons.injEq,
    and_true]
  omega

theorem words_sum_le (bytes : List Byte) : (words bytes).sum ≤ 65535 * (bytes.length / 2) := by
  induction bytes using words.induct with
  | case1 high low bytes ih =>
      have first := high.isLt
      have second := low.isLt
      simp only [words, List.sum_cons, List.length_cons]
      omega
  | case2 bytes short =>
      rw [words]
      · exact Nat.zero_le _
      · exact short

/-- A string with the checksum in the place of two zeros verifies. -/
theorem verifies_of_complement {before after : List Byte} (even : before.length % 2 = 0) :
    Verifies (before ++ wordBytes 2 (BitVec.ofNat 16 (65535 - fold (words (before ++ [0, 0] ++ after)).sum)) ++ after) := by
  let sum := (words (before ++ [0, 0] ++ after)).sum
  have small := fold_lt sum
  have plain : sum = (words before).sum + (words after).sum := by
    have evenly : (before ++ [0, 0]).length % 2 = 0 := by
      simp only [List.length_append, List.length_cons, List.length_nil]
      omega
    simp only [sum, words_append evenly, words_append even, List.sum_append]
    rfl
  have evenly : (before ++ wordBytes 2 (BitVec.ofNat 16 (65535 - fold sum))).length % 2 = 0 := by
    rw [List.length_append, wordBytes_length]
    omega
  have field : (BitVec.ofNat 16 (65535 - fold sum)).toNat = 65535 - fold sum := by
    rw [BitVec.toNat_ofNat]
    omega
  have total : (words (before ++ wordBytes 2 (BitVec.ofNat 16 (65535 - fold sum)) ++ after)).sum =
      sum + (65535 - fold sum) := by
    rw [words_append evenly, words_append even, words_wordBytes, field, List.sum_append, List.sum_append,
      List.sum_singleton, plain]
    omega
  show fold (words (before ++ wordBytes 2 (BitVec.ofNat 16 (65535 - fold sum)) ++ after)).sum = 65535
  rw [total]
  exact fold_add_complement sum

end Words

end ZeroTierNode.Library.OnesComplement
