import Mathlib.Tactic.Common

/-!
The shifts of C, and the masks of prefixes that are made with them. Bits are counted
from the most significant one.
-/

namespace ZeroTierNode.Library.Shifts

variable {w n bits : Nat} {x y : BitVec w}

/-- `x << count`, which has a meaning only for counts below the width of `x`. -/
def shiftLeft (x : BitVec w) (count : BitVec n) : Option (BitVec w) :=
  if count.toNat < w then some (x <<< count.toNat) else none

/-- `x >> count` of an unsigned integer, likewise. -/
def shiftRight (x : BitVec w) (count : BitVec n) : Option (BitVec w) :=
  if count.toNat < w then some (x >>> count.toNat) else none

theorem shiftLeft_isSome {count : BitVec n} : (shiftLeft x count).isSome = true ↔ count.toNat < w := by
  unfold shiftLeft
  by_cases small : count.toNat < w <;> simp [small]

theorem shiftRight_isSome {count : BitVec n} : (shiftRight x count).isSome = true ↔ count.toNat < w := by
  unfold shiftRight
  by_cases small : count.toNat < w <;> simp [small]

/-- The first bits of the word are set. -/
def firstBits (w bits : Nat) : BitVec w := BitVec.allOnes w <<< (w - bits)

/-- All bits but the first ones are set. -/
def lastBits (w bits : Nat) : BitVec w := BitVec.allOnes w >>> bits

/-- The words have the same first bits. -/
def Agree (bits : Nat) (x y : BitVec w) : Prop := ∀ i < bits, x.getMsbD i = y.getMsbD i

/-- There is nothing behind the first bits. -/
def Bare (bits : Nat) (x : BitVec w) : Prop := ∀ i, bits ≤ i → x.getMsbD i = false

section Masks

theorem getMsbD_allOnes {i : Nat} (inside : i < w) : (BitVec.allOnes w).getMsbD i = true := by
  rw [BitVec.getMsbD, BitVec.getLsbD_allOnes, decide_eq_true inside, decide_eq_true (by omega), Bool.true_and]

theorem getMsbD_firstBits {i : Nat} (inside : i < w) : (firstBits w bits).getMsbD i = decide (i < bits) := by
  rw [firstBits, BitVec.getMsbD_shiftLeft]
  by_cases covered : i < bits
  · rw [getMsbD_allOnes (by omega), decide_eq_true covered]
  · rw [BitVec.getMsbD_of_ge _ _ (by omega), decide_eq_false covered]

theorem getMsbD_lastBits {i : Nat} (inside : i < w) : (lastBits w bits).getMsbD i = decide (bits ≤ i) := by
  rw [lastBits, BitVec.getMsbD_ushiftRight, decide_eq_true inside, Bool.true_and]
  by_cases covered : bits ≤ i
  · simp [getMsbD_allOnes (show i - bits < w by omega), covered]
  · simp [covered, Nat.lt_of_not_le covered]

theorem bare_firstBits : Bare bits (firstBits w bits) := by
  intro i behind
  by_cases inside : i < w
  · rw [getMsbD_firstBits inside, decide_eq_false (by omega)]
  · exact BitVec.getMsbD_of_ge _ _ (by omega)

theorem and_firstBits_eq_iff : x &&& firstBits w bits = y ↔ Agree bits x y ∧ Bare bits y := by
  constructor
  · intro masked
    subst masked
    constructor
    · intro i inside
      rw [BitVec.getMsbD_and]
      by_cases small : i < w
      · rw [getMsbD_firstBits small, decide_eq_true inside, Bool.and_true]
      · rw [BitVec.getMsbD_of_ge _ _ (by omega), Bool.false_and]
    · intro i behind
      rw [BitVec.getMsbD_and, bare_firstBits i behind, Bool.and_false]
  · intro ⟨agree, bare⟩
    apply BitVec.eq_of_getMsbD_eq
    intro i inside
    rw [BitVec.getMsbD_and, getMsbD_firstBits inside]
    by_cases covered : i < bits
    · rw [agree i covered, decide_eq_true covered, Bool.and_true]
    · rw [bare i (by omega), decide_eq_false covered, Bool.and_false]

theorem and_firstBits_self_iff : x &&& firstBits w bits = x ↔ Bare bits x := by
  rw [and_firstBits_eq_iff]
  exact ⟨And.right, fun bare => ⟨fun _ _ => rfl, bare⟩⟩

/-- To drop the bits behind a prefix is to compare the prefix. -/
theorem shiftRight_eq_iff (fits : bits ≤ w) : x >>> (w - bits) = y >>> (w - bits) ↔ Agree bits x y := by
  constructor
  · intro same i inside
    have moved := congrArg (fun word => word.getMsbD (i + (w - bits))) same
    have within : i + (w - bits) < w := by omega
    have behind : ¬i + (w - bits) < w - bits := by omega
    simpa [BitVec.getMsbD_ushiftRight, within, behind] using moved
  · intro agree
    apply BitVec.eq_of_getMsbD_eq
    intro i inside
    rw [BitVec.getMsbD_ushiftRight, BitVec.getMsbD_ushiftRight]
    by_cases moved : i < w - bits
    · simp [moved]
    · rw [agree _ (by omega)]

theorem and_lastBits_eq_zero_iff : x &&& lastBits w bits = 0#w ↔ Bare bits x := by
  constructor
  · intro none i behind
    by_cases inside : i < w
    · have bit := congrArg (fun word => word.getMsbD i) none
      simpa [BitVec.getMsbD_and, getMsbD_lastBits inside, behind] using bit
    · exact BitVec.getMsbD_of_ge _ _ (by omega)
  · intro bare
    apply BitVec.eq_of_getMsbD_eq
    intro i inside
    rw [BitVec.getMsbD_and, getMsbD_lastBits inside, BitVec.getMsbD_zero]
    by_cases behind : bits ≤ i
    · rw [bare i behind, Bool.false_and]
    · rw [decide_eq_false behind, Bool.and_false]

/-- A mask in two halves. -/
theorem firstBits_append (m : Nat) : firstBits m bits ++ firstBits w (bits - m) = firstBits (m + w) bits := by
  apply BitVec.eq_of_getMsbD_eq
  intro i inside
  rw [BitVec.getMsbD_append, getMsbD_firstBits inside]
  by_cases low : m ≤ i
  · rw [if_pos low, getMsbD_firstBits (by omega)]
    congr 1
    simp only [eq_iff_iff]
    omega
  · rw [if_neg low, getMsbD_firstBits (by omega)]

end Masks

end ZeroTierNode.Library.Shifts
