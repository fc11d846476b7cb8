import Mathlib.Algebra.Field.ZMod
import Mathlib.Algebra.Polynomial.Reverse
import Mathlib.Tactic.Ring

/-!
Words as polynomials whose coefficients are their bits: sums, shifts and products without
carries, in both orders of the bits, and when the product of two words as integers has them.
-/

namespace ZeroTierNode.Library.BinaryPolynomials
open Polynomial Finset

section Words

variable {n m : Nat}

/-- The polynomial of a word, with bit `i` as the coefficient of `X ^ i`. -/
noncomputable def poly (R : Type) [Semiring R] (w : BitVec n) : R[X] :=
  ∑ i ∈ range n, monomial i (((w.getLsbD i).toNat : ℕ) : R)

theorem coeff_poly (R : Type) [Semiring R] (w : BitVec n) (i : Nat) :
    (poly R w).coeff i = ((w.getLsbD i).toNat : R) := by
  rw [poly, finsetSum_coeff]
  simp only [coeff_monomial]
  rw [sum_ite_eq']
  split
  · rfl
  · rename_i outside
    rw [BitVec.getLsbD_of_ge w i (by simpa using outside)]
    exact Nat.cast_zero.symm

theorem map_poly (w : BitVec n) : (poly ℕ w).map (Nat.castRingHom (ZMod 2)) = poly (ZMod 2) w := by
  ext i
  rw [coeff_map, coeff_poly, coeff_poly]
  rfl

theorem sum_testBit (v n : Nat) : ∑ i ∈ range n, (v.testBit i).toNat * 2 ^ i = v % 2 ^ n := by
  induction n with
  | zero => rw [range_zero, sum_empty, pow_zero, Nat.mod_one]
  | succ n ih => rw [sum_range_succ, ih, Nat.mod_pow_succ, Nat.toNat_testBit, Nat.mul_comm]

/-- A word is the value of its polynomial at 2. -/
theorem eval_poly (w : BitVec n) : (poly ℕ w).eval 2 = w.toNat := by
  calc (poly ℕ w).eval 2 = ∑ i ∈ range n, (w.toNat.testBit i).toNat * 2 ^ i := by
        simp only [poly, eval_finsetSum, eval_monomial, BitVec.testBit_toNat, Nat.cast_id]
    _ = w.toNat := by rw [sum_testBit, Nat.mod_eq_of_lt w.isLt]

theorem natDegree_poly (R : Type) [Semiring R] (w : BitVec n) : (poly R w).natDegree ≤ n - 1 := by
  rw [natDegree_le_iff_coeff_eq_zero]
  intro i above
  rw [coeff_poly, BitVec.getLsbD_of_ge w i (by omega)]
  exact Nat.cast_zero

theorem poly_injective {a b : BitVec n} (same : poly (ZMod 2) a = poly (ZMod 2) b) : a = b := by
  apply BitVec.eq_of_getLsbD_eq
  intro i inside
  have bits := congrArg (fun f => f.coeff i) same
  simp only [coeff_poly] at bits
  cases first : a.getLsbD i <;> cases second : b.getLsbD i <;> simp_all

theorem bit_xor (a b : Bool) : (((a ^^ b).toNat : ℕ) : ZMod 2) = (a.toNat : ZMod 2) + (b.toNat : ZMod 2) := by
  cases a <;> cases b <;> decide

theorem poly_xor (a b : BitVec n) : poly (ZMod 2) (a ^^^ b) = poly (ZMod 2) a + poly (ZMod 2) b := by
  ext i
  rw [coeff_add, coeff_poly, coeff_poly, coeff_poly, BitVec.getLsbD_xor, bit_xor]

theorem poly_append (high : BitVec n) (low : BitVec m) :
    poly (ZMod 2) (high ++ low) = X ^ m * poly (ZMod 2) high + poly (ZMod 2) low := by
  ext i
  rw [coeff_add, coeff_X_pow_mul', coeff_poly, coeff_poly, coeff_poly, BitVec.getLsbD_append]
  by_cases inside : i < m
  · simp [inside, Nat.not_le.mpr inside]
  · simp [inside, Nat.not_lt.mp inside]

end Words

section Lanes

variable {n w s t : Nat}

/-- All bits of the word are at places that are `s` modulo `w`. -/
def InLane (w s : Nat) (x : BitVec n) : Prop := ∀ i, x.getLsbD i = true → i % w = s

/-- Terms that are `w` places apart and less than `2 ^ w` do not reach the place of the next. -/
theorem sum_below {c : Nat → Nat} {r : Nat} (lane : ∀ p, c p ≠ 0 → p % w = r) (small : ∀ p, c p < 2 ^ w)
    (inside : r < w) (k : Nat) : ∑ q ∈ range (r + w * k), c q * 2 ^ q < 2 ^ (r + w * k) := by
  induction k with
  | zero =>
      have none : ∑ q ∈ range (r + w * 0), c q * 2 ^ q = 0 := by
        apply sum_eq_zero
        intro q below
        have place := mem_range.mp below
        have zero : c q = 0 := by
          by_contra there
          have here := lane q there
          rw [Nat.mod_eq_of_lt (by omega)] at here
          omega
        rw [zero, Nat.zero_mul]
      rw [none]
      exact Nat.two_pow_pos _
  | succ k ih =>
      have one : ∑ i ∈ range w, c (r + w * k + i) * 2 ^ (r + w * k + i) = c (r + w * k) * 2 ^ (r + w * k) := by
        rw [sum_eq_single_of_mem 0 (mem_range.mpr (by omega)), Nat.add_zero]
        intro i below other
        have zero : c (r + w * k + i) = 0 := by
          by_contra there
          have here := lane _ there
          have place := mem_range.mp below
          rw [Nat.add_right_comm, Nat.add_mul_mod_self_left] at here
          have close : r + i < w ∨ w ≤ r + i ∧ r + i < w + w := by omega
          rcases close with close | close
          · rw [Nat.mod_eq_of_lt close] at here
            omega
          · rw [Nat.mod_eq_sub_mod close.1, Nat.mod_eq_of_lt (by omega)] at here
            omega
        rw [zero, Nat.zero_mul]
      have next : r + w * (k + 1) = r + w * k + w := by rw [Nat.mul_add, Nat.mul_one, Nat.add_assoc]
      calc ∑ q ∈ range (r + w * (k + 1)), c q * 2 ^ q
          = ∑ q ∈ range (r + w * k), c q * 2 ^ q + c (r + w * k) * 2 ^ (r + w * k) := by
            rw [next, sum_range_add, one]
        _ < 2 ^ (r + w * k) + c (r + w * k) * 2 ^ (r + w * k) := Nat.add_lt_add_right ih _
        _ = (c (r + w * k) + 1) * 2 ^ (r + w * k) := by ring
        _ ≤ 2 ^ w * 2 ^ (r + w * k) := Nat.mul_le_mul_right _ (small _)
        _ = 2 ^ (r + w * (k + 1)) := by rw [← pow_add, next, Nat.add_comm]

/-- In its lane, each bit of the value at 2 is the parity of a coefficient. -/
theorem testBit_eval {Q : ℕ[X]} {r p : Nat} (lane : ∀ p, Q.coeff p ≠ 0 → p % w = r) (small : ∀ p, Q.coeff p < 2 ^ w)
    (inside : r < w) (here : p % w = r) : (Q.eval 2).testBit p = decide (Q.coeff p % 2 = 1) := by
  have below : ∑ q ∈ range p, Q.coeff q * 2 ^ q < 2 ^ p := by
    have place : p = r + w * (p / w) := by rw [← here, Nat.mod_add_div]
    rw [place]
    exact sum_below lane small inside (p / w)
  let above := ∑ i ∈ range (Q.natDegree + 1), Q.coeff (p + 1 + i) * 2 ^ i
  have value : Q.eval 2 = 2 ^ p * (Q.coeff p + 2 * above) + ∑ q ∈ range p, Q.coeff q * 2 ^ q := by
    calc Q.eval 2 = ∑ q ∈ range (p + 1 + (Q.natDegree + 1)), Q.coeff q * 2 ^ q :=
          eval_eq_sum_range' (by omega) 2
      _ = ∑ q ∈ range p, Q.coeff q * 2 ^ q + Q.coeff p * 2 ^ p + 2 ^ (p + 1) * above := by
          rw [sum_range_add, sum_range_succ, mul_sum]
          congr 1
          apply sum_congr rfl
          intro i _
          ring
      _ = _ := by ring
  have quotient : Q.eval 2 / 2 ^ p = Q.coeff p + 2 * above := by
    rw [value, Nat.mul_add_div (Nat.two_pow_pos p), Nat.div_eq_of_lt below, Nat.add_zero]
  rw [Nat.testBit_eq_decide_div_mod_eq, quotient]
  congr 2
  omega

variable {x y : BitVec n}

theorem InLane.coeff (lane : InLane w s x) {i : Nat} (set : (poly ℕ x).coeff i ≠ 0) : i % w = s := by
  apply lane i
  rw [coeff_poly] at set
  cases bit : x.getLsbD i with
  | false => simp [bit] at set
  | true => rfl

theorem coeff_mul_lane (first : InLane w s x) (second : InLane w t y) {p : Nat}
    (set : (poly ℕ x * poly ℕ y).coeff p ≠ 0) : p % w = (s + t) % w := by
  rw [coeff_mul] at set
  obtain ⟨⟨i, j⟩, place, term⟩ := exists_ne_zero_of_sum_ne_zero set
  have factors := mul_ne_zero_iff.mp term
  rw [← mem_antidiagonal.mp place, Nat.add_mod, first.coeff factors.1, second.coeff factors.2]

/-- A coefficient of the product adds up no more bits than one of the words has. -/
theorem coeff_mul_le (x y : BitVec n) (p : Nat) :
    (poly ℕ x * poly ℕ y).coeff p ≤ ∑ i ∈ range n, (x.getLsbD i).toNat := by
  have bit (j : Nat) : (poly ℕ y).coeff j ≤ 1 := by
    rw [coeff_poly]
    exact Bool.toNat_le _
  calc (poly ℕ x * poly ℕ y).coeff p
      = ∑ i ∈ range (p + 1), (poly ℕ x).coeff i * (poly ℕ y).coeff (p - i) := by
        rw [coeff_mul, Nat.sum_antidiagonal_eq_sum_range_succ fun i j => (poly ℕ x).coeff i * (poly ℕ y).coeff j]
    _ ≤ ∑ i ∈ range (p + 1), (x.getLsbD i).toNat := by
        apply sum_le_sum
        intro i _
        calc _ ≤ (poly ℕ x).coeff i * 1 := Nat.mul_le_mul_left _ (bit _)
          _ = (x.getLsbD i).toNat := by rw [Nat.mul_one, coeff_poly, Nat.cast_id]
    _ ≤ ∑ i ∈ range n, (x.getLsbD i).toNat := by
        apply sum_le_sum_of_ne_zero
        intro i _ set
        rw [mem_range]
        by_contra outside
        rw [BitVec.getLsbD_of_ge x i (Nat.not_lt.mp outside)] at set
        exact set rfl

/-- The product of the integers has, in its lane, the coefficients of the product of the polynomials. -/
theorem coeff_mul_poly (first : InLane w s x) (second : InLane w t y) (positive : 0 < w)
    (few : ∑ i ∈ range n, (x.getLsbD i).toNat < 2 ^ w) (p : Nat) :
    (poly (ZMod 2) x * poly (ZMod 2) y).coeff p =
      if p % w = (s + t) % w then (((x.toNat * y.toNat).testBit p).toNat : ZMod 2) else 0 := by
  have lane : ∀ p, (poly ℕ x * poly ℕ y).coeff p ≠ 0 → p % w = (s + t) % w := fun p => coeff_mul_lane first second
  have small (p : Nat) : (poly ℕ x * poly ℕ y).coeff p < 2 ^ w := Nat.lt_of_le_of_lt (coeff_mul_le x y p) few
  have image : (poly (ZMod 2) x * poly (ZMod 2) y).coeff p = ((poly ℕ x * poly ℕ y).coeff p : ZMod 2) := by
    rw [← map_poly, ← map_poly, ← Polynomial.map_mul, coeff_map]
    rfl
  rw [image]
  split
  · rename_i here
    have bit := testBit_eval lane small (Nat.mod_lt _ positive) here
    rw [eval_mul, eval_poly, eval_poly] at bit
    rw [bit, ZMod.natCast_eq_natCast_iff']
    rcases Nat.mod_two_eq_zero_or_one ((poly ℕ x * poly ℕ y).coeff p) with even | odd
    · simp [even]
    · simp [odd]
  · rename_i other
    have zero : (poly ℕ x * poly ℕ y).coeff p = 0 := by
      by_contra set
      exact other (lane p set)
    rw [zero, Nat.cast_zero]

end Lanes

section Products

variable {n : Nat}

/-- The product without carries, of which `count` bits of the second factor are done. -/
def carryless (x y : BitVec n) : Nat → BitVec (n + n)
  | 0 => 0
  | i + 1 => carryless x y i ^^^ if y.getLsbD i then x.setWidth (n + n) <<< i else 0

theorem poly_zero : poly (ZMod 2) (0 : BitVec n) = 0 := by
  ext i
  simp [coeff_poly]

theorem poly_shifted (x : BitVec n) {i : Nat} (inside : i ≤ n) :
    poly (ZMod 2) (x.setWidth (n + n) <<< i) = X ^ i * poly (ZMod 2) x := by
  ext j
  rw [coeff_X_pow_mul', coeff_poly, coeff_poly, BitVec.getLsbD_shiftLeft, BitVec.getLsbD_setWidth]
  by_cases low : j < i
  · simp [low, Nat.not_le.mpr low]
  · by_cases high : j - i < n
    · have range : j < n + n ∧ j - i < n + n := by omega
      simp [low, Nat.not_lt.mp low, range]
    · rw [BitVec.getLsbD_of_ge x _ (Nat.not_lt.mp high)]
      simp

theorem poly_carryless (x y : BitVec n) : poly (ZMod 2) (carryless x y n) = poly (ZMod 2) x * poly (ZMod 2) y := by
  have part : ∀ count ≤ n, poly (ZMod 2) (carryless x y count) =
      poly (ZMod 2) x * ∑ i ∈ range count, monomial i ((y.getLsbD i).toNat : ZMod 2) := by
    intro count inside
    induction count with
    | zero => rw [carryless, poly_zero, range_zero, sum_empty, mul_zero]
    | succ i ih =>
        rw [carryless, poly_xor, ih (by omega), sum_range_succ, mul_add]
        congr 1
        cases y.getLsbD i with
        | false =>
            rw [if_neg Bool.false_ne_true, poly_zero]
            simp
        | true =>
            rw [if_pos rfl, poly_shifted x (by omega), mul_comm, ← monomial_one_right_eq_X_pow]
            simp
  exact part n le_rfl

/-- A word times a power of `X` has two parts, the second of which belongs in front of the word. -/
theorem poly_shift (w : BitVec n) {k : Nat} (inside : k ≤ n) :
    X ^ k * poly (ZMod 2) w = poly (ZMod 2) (w <<< k) + X ^ n * poly (ZMod 2) (w >>> (n - k)) := by
  ext i
  rw [coeff_add, coeff_X_pow_mul', coeff_X_pow_mul', coeff_poly, coeff_poly, coeff_poly,
    BitVec.getLsbD_shiftLeft, BitVec.getLsbD_ushiftRight]
  by_cases high : n ≤ i
  · have place : n - k + (i - n) = i - k := by omega
    have behind : k ≤ i := by omega
    simp [high, Nat.not_lt.mpr high, place, behind]
  · by_cases low : k ≤ i
    · simp [high, Nat.not_le.mp high, low, Nat.not_lt.mpr low]
    · simp [high, low, Nat.not_le.mp low]

end Products

section Reversed

variable {n m : Nat}

/-- The polynomial of a word with the bits in reverse order: the highest bit is the constant coefficient. -/
noncomputable def element (w : BitVec n) : (ZMod 2)[X] := poly (ZMod 2) w.reverse

theorem coeff_element (w : BitVec n) (i : Nat) : (element w).coeff i = ((w.getMsbD i).toNat : ZMod 2) := by
  rw [element, coeff_poly, BitVec.getLsbD_reverse]

theorem element_xor (a b : BitVec n) : element (a ^^^ b) = element a + element b := by
  ext i
  rw [coeff_add, coeff_element, coeff_element, coeff_element, BitVec.getMsbD_xor, bit_xor]

theorem element_append (high : BitVec n) (low : BitVec m) :
    element (high ++ low) = element high + X ^ n * element low := by
  ext i
  rw [coeff_add, coeff_X_pow_mul', coeff_element, coeff_element, coeff_element, BitVec.getMsbD_append]
  by_cases inside : i < n
  · simp [Nat.not_le.mpr inside]
  · simp [Nat.not_lt.mp inside]

theorem element_eq_reflect (w : BitVec (n + 1)) : element w = reflect n (poly (ZMod 2) w) := by
  ext i
  rw [coeff_reflect, coeff_element, coeff_poly, BitVec.getMsbD_eq_getLsbD]
  by_cases inside : i < n + 1
  · rw [revAt_le (Nat.lt_succ_iff.mp inside), Nat.add_sub_cancel]
    simp [inside]
  · rw [revAt_eq_self_of_lt (by omega), BitVec.getLsbD_of_ge w i (by omega)]
    simp [inside]

/-- A word times a power of `X` has two parts, the second of which belongs behind the word. -/
theorem element_shift (w : BitVec n) {k : Nat} (inside : k ≤ n) :
    X ^ k * element w = element (w >>> k) + X ^ n * element (w <<< (n - k)) := by
  ext i
  rw [coeff_add, coeff_X_pow_mul', coeff_X_pow_mul', coeff_element, coeff_element, coeff_element,
    BitVec.getMsbD_ushiftRight, BitVec.getMsbD_shiftLeft]
  by_cases high : n ≤ i
  · have place : i - n + (n - k) = i - k := by omega
    have behind : k ≤ i := by omega
    simp [high, Nat.not_lt.mpr high, place, behind]
  · by_cases low : k ≤ i
    · simp [high, Nat.not_le.mp high, low, Nat.not_lt.mpr low]
    · simp [high, low, Nat.not_le.mp low]

end Reversed

end ZeroTierNode.Library.BinaryPolynomials
