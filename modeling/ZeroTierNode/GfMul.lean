import Mathlib.Algebra.Polynomial.Div
import Mathlib.Tactic.ComputeDegree
import Mathlib.Tactic.LinearCombination
import ZeroTierNode.Library.BinaryPolynomials
import ZeroTierNode.Library.StreamBuffers

/-!
The multiplication of GMAC as AES.cpp computes it without processor support: products without
carries from integer products of masked words, put together by the rule of Karatsuba, and the
reduction by shifts.
-/

namespace ZeroTierNode.GfMul
open Polynomial Library.BinaryPolynomials Library.StreamBuffers

section Product

/-- `(uint64_t)x * y` for two words. -/
def product (x y : BitVec 32) : BitVec 64 := x.setWidth 64 * y.setWidth 64

/-- The macro with its results `rh` and `rl`. -/
def s_bmul32 (x y : BitVec 32) : BitVec 32 × BitVec 32 :=
  let x0t := x &&& 0x11111111
  let x1t := x &&& 0x22222222
  let x2t := x &&& 0x44444444
  let x3t := x &&& 0x88888888
  let y0t := y &&& 0x11111111
  let y1t := y &&& 0x22222222
  let y2t := y &&& 0x44444444
  let y3t := y &&& 0x88888888
  let z0t := (product x0t y0t ^^^ product x1t y3t ^^^ product x2t y2t ^^^ product x3t y1t) &&& 0x1111111111111111
  let z1t := (product x0t y1t ^^^ product x1t y0t ^^^ product x2t y3t ^^^ product x3t y2t) &&& 0x2222222222222222
  let z2t := (product x0t y2t ^^^ product x1t y1t ^^^ product x2t y0t ^^^ product x3t y3t) &&& 0x4444444444444444
  let z0t := z0t ||| z1t
  let z2t := z2t ||| z0t
  let zt := z2t |||
    ((product x0t y3t ^^^ product x1t y2t ^^^ product x2t y1t ^^^ product x3t y0t) &&& 0x8888888888888888)
  ((zt >>> 32).setWidth 32, zt.setWidth 32)

/-- Four words of a product, as `s_gfmul` names them: `ah`, `al`, `bh` and `bl`. -/
structure Words where
  ah : BitVec 32
  al : BitVec 32
  bh : BitVec 32
  bl : BitVec 32
deriving DecidableEq, Repr

/-- The lines that `s_gfmul` has three times, with three expansions of `s_bmul32`. -/
def karatsuba (xh xl yh yl : BitVec 32) : Words :=
  let a := s_bmul32 xh yh
  let b := s_bmul32 xl yl
  let c := s_bmul32 (xh ^^^ xl) (yh ^^^ yl)
  let ch := c.1 ^^^ a.1 ^^^ b.1
  let cl := c.2 ^^^ a.2 ^^^ b.2
  ⟨a.1, a.2 ^^^ ch, b.1 ^^^ cl, b.2⟩

/-- `((uint64_t)h << 32U) | l`. -/
def join (h l : BitVec 32) : BitVec 64 := (h.setWidth 64 <<< 32) ||| l.setWidth 64

/-- The four words of the whole product in `s_gfmul`. -/
structure Wide where
  zhh : BitVec 64
  zhl : BitVec 64
  zlh : BitVec 64
  zll : BitVec 64
deriving DecidableEq, Repr

/-- `s_gfmul` without its first and last lines: from the words of `h` and `y` to their product. -/
def wide (hh hl yl yh : BitVec 64) : Wide :=
  let hhh := (hh >>> 32).setWidth 32
  let hhl := hh.setWidth 32
  let hlh := (hl >>> 32).setWidth 32
  let hll := hl.setWidth 32
  let hhXlh := hhh ^^^ hlh
  let hhXll := hhl ^^^ hll
  let cilh := (yh >>> 32).setWidth 32
  let cill := yh.setWidth 32
  let cihh := (yl >>> 32).setWidth 32
  let cihl := yl.setWidth 32
  let cihXlh := cihh ^^^ cilh
  let cihXll := cihl ^^^ cill
  let a := karatsuba cihh cihl hhh hhl
  let b := karatsuba cilh cill hlh hll
  let c := karatsuba cihXlh cihXll hhXlh hhXll
  let cah := c.ah ^^^ (b.ah ^^^ a.ah)
  let cal := c.al ^^^ (b.al ^^^ a.al)
  let cbh := c.bh ^^^ (b.bh ^^^ a.bh)
  let cbl := c.bl ^^^ (b.bl ^^^ a.bl)
  ⟨join a.ah a.al, join a.bh a.bl ^^^ join cah cal, join b.ah b.al ^^^ join cbh cbl, join b.bh b.bl⟩

/-- The shift of the product by one. -/
def Wide.shifted (z : Wide) : Wide :=
  ⟨z.zhh <<< 1 ||| z.zhl >>> 63, z.zhl <<< 1 ||| z.zlh >>> 63, z.zlh <<< 1 ||| z.zll >>> 63, z.zll <<< 1⟩

/-- The last lines, behind the shift: what is left in `zhh` and `zhl`. -/
def Wide.reduced (z : Wide) : BitVec 64 × BitVec 64 :=
  let zlh := z.zlh ^^^ ((z.zll <<< 63) ^^^ (z.zll <<< 62) ^^^ (z.zll <<< 57))
  (z.zhh ^^^ (zlh ^^^ (zlh >>> 1) ^^^ (zlh >>> 2) ^^^ (zlh >>> 7)),
    z.zhl ^^^ (z.zll ^^^ (z.zll >>> 1) ^^^ (z.zll >>> 2) ^^^ (z.zll >>> 7) ^^^
      (zlh <<< 63) ^^^ (zlh <<< 62) ^^^ (zlh <<< 57)))

/-- `y0` and `y1` after the call; on a little-endian processor `ntoh` and `hton` turn the bytes round. -/
def s_gfmul (hh hl y0 y1 : BitVec 64) : BitVec 64 × BitVec 64 :=
  let z := (wide hh hl (hton64 y0) (hton64 y1)).shifted.reduced
  (hton64 z.1, hton64 z.2)

end Product

section Expansion

/-- The mask has every fourth bit, from bit `s` on. -/
def Every (s : Nat) (mask : BitVec 32) : Prop := ∀ i < 32, mask.getLsbD i = decide (i % 4 = s)

instance Every.instDecidable (s : Nat) (mask : BitVec 32) : Decidable (Every s mask) :=
  inferInstanceAs (Decidable (∀ i < 32, mask.getLsbD i = decide (i % 4 = s)))

variable {s t : Nat} {mask other : BitVec 32}

theorem Every.inLane (every : Every s mask) (x : BitVec 32) : InLane 4 s (x &&& mask) := by
  intro i set
  have inside : i < 32 := BitVec.lt_of_getLsbD set
  rw [BitVec.getLsbD_and, every i inside, Bool.and_eq_true, decide_eq_true_eq] at set
  exact set.2

theorem Every.few (every : Every s mask) (below : s < 4) (x : BitVec 32) :
    ∑ i ∈ Finset.range 32, ((x &&& mask).getLsbD i).toNat < 2 ^ 4 := by
  have eight : ∀ s < 4, ∑ i ∈ Finset.range 32, (decide (i % 4 = s)).toNat < 2 ^ 4 := by decide
  apply Nat.lt_of_le_of_lt _ (eight s below)
  apply Finset.sum_le_sum
  intro i inside
  rw [BitVec.getLsbD_and, every i (Finset.mem_range.mp inside)]
  cases x.getLsbD i <;> simp

theorem getLsbD_product (x y : BitVec 32) (p : Nat) : (product x y).getLsbD p = (x.toNat * y.toNat).testBit p := by
  have small : x.toNat * y.toNat < 2 ^ 64 := by
    calc x.toNat * y.toNat < 2 ^ 32 * 2 ^ 32 := Nat.mul_lt_mul'' x.isLt y.isLt
      _ = 2 ^ 64 := by rw [← Nat.pow_add]
  rw [← BitVec.testBit_toNat, product, BitVec.toNat_mul, BitVec.toNat_setWidth, BitVec.toNat_setWidth,
    Nat.mod_eq_of_lt (Nat.lt_trans x.isLt (by decide)), Nat.mod_eq_of_lt (Nat.lt_trans y.isLt (by decide)),
    Nat.mod_eq_of_lt small]

/-- One of the sixteen products of masked words has the bits of one place. -/
theorem coeff_masked (first : Every s mask) (second : Every t other) (below : s < 4) (x y : BitVec 32) (p : Nat) :
    (poly (ZMod 2) (x &&& mask) * poly (ZMod 2) (y &&& other)).coeff p =
      if p % 4 = (s + t) % 4 then (((product (x &&& mask) (y &&& other)).getLsbD p).toNat : ZMod 2) else 0 := by
  rw [getLsbD_product]
  exact coeff_mul_poly (first.inLane x) (second.inLane y) (by decide) (first.few below x) p

theorem poly_masked (x : BitVec 32) :
    poly (ZMod 2) x = poly (ZMod 2) (x &&& 0x11111111) + poly (ZMod 2) (x &&& 0x22222222) +
      poly (ZMod 2) (x &&& 0x44444444) + poly (ZMod 2) (x &&& 0x88888888) := by
  have parts : (x &&& 0x11111111) ^^^ (x &&& 0x22222222) ^^^ (x &&& 0x44444444) ^^^ (x &&& 0x88888888) = x := by
    have all : ∀ i < 32, ((0x11111111 : BitVec 32).getLsbD i ^^ (0x22222222 : BitVec 32).getLsbD i ^^
        (0x44444444 : BitVec 32).getLsbD i ^^ (0x88888888 : BitVec 32).getLsbD i) = true := by decide
    apply BitVec.eq_of_getLsbD_eq
    intro i inside
    simp only [BitVec.getLsbD_xor, BitVec.getLsbD_and, ← Bool.and_xor_distrib_left]
    rw [all i inside, Bool.and_true]
  rw [← poly_xor, ← poly_xor, ← poly_xor, parts]

theorem halves (z : BitVec 64) : (z >>> 32).setWidth 32 ++ z.setWidth 32 = z := by
  apply BitVec.eq_of_getLsbD_eq
  intro i inside
  rw [BitVec.getLsbD_append]
  by_cases low : i < 32
  · simp [low]
  · have place : 32 + (i - 32) = i := by omega
    have range : i - 32 < 32 := by omega
    simp [low, place, range]

/-- Each expansion of the macro is a product without carries. -/
theorem poly_s_bmul32 (x y : BitVec 32) :
    poly (ZMod 2) ((s_bmul32 x y).1 ++ (s_bmul32 x y).2) = poly (ZMod 2) x * poly (ZMod 2) y := by
  have zero : Every 0 0x11111111 := by decide
  have one : Every 1 0x22222222 := by decide
  have two : Every 2 0x44444444 := by decide
  have three : Every 3 0x88888888 := by decide
  have places : ∀ p < 64, (0x1111111111111111 : BitVec 64).getLsbD p = decide (p % 4 = 0) ∧
      (0x2222222222222222 : BitVec 64).getLsbD p = decide (p % 4 = 1) ∧
      (0x4444444444444444 : BitVec 64).getLsbD p = decide (p % 4 = 2) ∧
      (0x8888888888888888 : BitVec 64).getLsbD p = decide (p % 4 = 3) := by decide
  ext p
  rw [poly_masked x, poly_masked y]
  simp only [add_mul, mul_add, coeff_add, coeff_masked zero zero, coeff_masked zero one, coeff_masked zero two,
    coeff_masked zero three, coeff_masked one zero, coeff_masked one one, coeff_masked one two,
    coeff_masked one three, coeff_masked two zero, coeff_masked two one, coeff_masked two two, coeff_masked two three,
    coeff_masked three zero, coeff_masked three one, coeff_masked three two, coeff_masked three three,
    Nat.reduceLT, Nat.reduceAdd, Nat.reduceMod]
  simp only [s_bmul32]
  rw [halves, coeff_poly]
  by_cases inside : p < 64
  · have residue : p % 4 = 0 ∨ p % 4 = 1 ∨ p % 4 = 2 ∨ p % 4 = 3 := by omega
    rcases residue with here | here | here | here
    all_goals
      simp only [BitVec.getLsbD_or, BitVec.getLsbD_and, BitVec.getLsbD_xor, places p inside, here]
      simp only [Nat.reduceEqDiff, decide_true, decide_false, Bool.and_true, Bool.and_false, Bool.or_false,
        Bool.false_or, if_true, if_false, bit_xor, add_zero, zero_add, OfNat.one_ne_ofNat]
      ring
  · have none (z : BitVec 64) : z.getLsbD p = false := BitVec.getLsbD_of_ge z p (Nat.not_lt.mp inside)
    simp [none]

end Expansion

section Karatsuba

theorem two_eq_zero : (2 : (ZMod 2)[X]) = 0 := by
  have two : (2 : ZMod 2) = 0 := rfl
  rw [← C_ofNat, two, C_0]

theorem poly_bmul (x y : BitVec 32) :
    X ^ 32 * poly (ZMod 2) (s_bmul32 x y).1 + poly (ZMod 2) (s_bmul32 x y).2 = poly (ZMod 2) x * poly (ZMod 2) y := by
  rw [← poly_append]
  exact poly_s_bmul32 x y

/-- The polynomial of the four words. -/
noncomputable def Words.poly (w : Words) : (ZMod 2)[X] :=
  (X ^ 32) ^ 3 * Library.BinaryPolynomials.poly (ZMod 2) w.ah +
    (X ^ 32) ^ 2 * Library.BinaryPolynomials.poly (ZMod 2) w.al +
    X ^ 32 * Library.BinaryPolynomials.poly (ZMod 2) w.bh + Library.BinaryPolynomials.poly (ZMod 2) w.bl

theorem poly_karatsuba (xh xl yh yl : BitVec 32) :
    (karatsuba xh xl yh yl).poly = poly (ZMod 2) (xh ++ xl) * poly (ZMod 2) (yh ++ yl) := by
  have high := poly_bmul xh yh
  have low := poly_bmul xl yl
  have sums := poly_bmul (xh ^^^ xl) (yh ^^^ yl)
  rw [poly_xor, poly_xor] at sums
  simp only [Words.poly, karatsuba, poly_xor, poly_append]
  linear_combination (X ^ 64 + X ^ 32) * high + (X ^ 32 + 1) * low + X ^ 32 * sums +
    X ^ 32 * (poly (ZMod 2) xh * poly (ZMod 2) yh + poly (ZMod 2) xl * poly (ZMod 2) yl) * two_eq_zero

theorem join_eq (h l : BitVec 32) : join h l = h ++ l := by
  apply BitVec.eq_of_getLsbD_eq
  intro i inside
  rw [join, BitVec.getLsbD_or, BitVec.getLsbD_shiftLeft, BitVec.getLsbD_setWidth, BitVec.getLsbD_setWidth,
    BitVec.getLsbD_append]
  by_cases low : i < 32
  · simp [low, inside]
  · have range : i - 32 < 64 := by omega
    simp [low, inside, range, BitVec.getLsbD_of_ge l i (Nat.not_lt.mp low)]

theorem poly_join (h l : BitVec 32) :
    poly (ZMod 2) (join h l) = X ^ 32 * poly (ZMod 2) h + poly (ZMod 2) l := by
  rw [join_eq, poly_append]

end Karatsuba

section Reduction

theorem poly_halves (z : BitVec 64) :
    poly (ZMod 2) ((z >>> 32).setWidth 32 ++ z.setWidth 32) = poly (ZMod 2) z := by rw [halves]

/-- The polynomial of the whole product. -/
noncomputable def Wide.poly (z : Wide) : (ZMod 2)[X] :=
  (X ^ 64) ^ 3 * Library.BinaryPolynomials.poly (ZMod 2) z.zhh +
    (X ^ 64) ^ 2 * Library.BinaryPolynomials.poly (ZMod 2) z.zhl +
    X ^ 64 * Library.BinaryPolynomials.poly (ZMod 2) z.zlh + Library.BinaryPolynomials.poly (ZMod 2) z.zll

theorem poly_wide (hh hl yl yh : BitVec 64) :
    (wide hh hl yl yh).poly = poly (ZMod 2) (yl ++ yh) * poly (ZMod 2) (hh ++ hl) := by
  have high := poly_karatsuba ((yl >>> 32).setWidth 32) (yl.setWidth 32) ((hh >>> 32).setWidth 32) (hh.setWidth 32)
  have low := poly_karatsuba ((yh >>> 32).setWidth 32) (yh.setWidth 32) ((hl >>> 32).setWidth 32) (hl.setWidth 32)
  have sums := poly_karatsuba ((yl >>> 32).setWidth 32 ^^^ (yh >>> 32).setWidth 32)
    (yl.setWidth 32 ^^^ yh.setWidth 32) ((hh >>> 32).setWidth 32 ^^^ (hl >>> 32).setWidth 32)
    (hh.setWidth 32 ^^^ hl.setWidth 32)
  have split (a b : BitVec 64) :
      ((a >>> 32).setWidth 32 ^^^ (b >>> 32).setWidth 32) ++ (a.setWidth 32 ^^^ b.setWidth 32) = a ^^^ b := by
    rw [← BitVec.xor_append, halves, halves]
  rw [poly_halves, poly_halves] at high low
  rw [split, split, poly_xor, poly_xor] at sums
  simp only [Words.poly] at high low sums
  simp only [Wide.poly, wide, poly_xor, poly_join, poly_append]
  have square : (X : (ZMod 2)[X]) ^ 64 = (X ^ 32) ^ 2 := by rw [← pow_mul]
  rw [square]
  generalize (X : (ZMod 2)[X]) ^ 32 = Y at high low sums ⊢
  linear_combination (Y ^ 4 + Y ^ 2) * high + (Y ^ 2 + 1) * low + Y ^ 2 * sums +
    Y ^ 2 * (poly (ZMod 2) yl * poly (ZMod 2) hh + poly (ZMod 2) yh * poly (ZMod 2) hl) * two_eq_zero

theorem shift_or (a b : BitVec 64) :
    poly (ZMod 2) (a <<< 1 ||| b >>> 63) = poly (ZMod 2) (a <<< 1) + poly (ZMod 2) (b >>> 63) := by
  have disjoint : a <<< 1 ||| b >>> 63 = a <<< 1 ^^^ b >>> 63 := by
    apply BitVec.eq_of_getLsbD_eq
    intro i inside
    rw [BitVec.getLsbD_or, BitVec.getLsbD_xor, BitVec.getLsbD_shiftLeft, BitVec.getLsbD_ushiftRight]
    by_cases low : i < 1
    · simp [low]
    · rw [BitVec.getLsbD_of_ge b _ (by omega), Bool.or_false, Bool.xor_false]
  rw [disjoint, poly_xor]

theorem poly_shifted_words (z : Wide) : z.shifted.poly + (X ^ 64) ^ 4 * poly (ZMod 2) (z.zhh >>> 63) = X * z.poly := by
  have first := poly_shift z.zhh (show 1 ≤ 64 by decide)
  have second := poly_shift z.zhl (show 1 ≤ 64 by decide)
  have third := poly_shift z.zlh (show 1 ≤ 64 by decide)
  have fourth := poly_shift z.zll (show 1 ≤ 64 by decide)
  simp only [Wide.poly, Wide.shifted, shift_or]
  simp only [pow_one, Nat.reduceSub] at first second third fourth
  generalize (X : (ZMod 2)[X]) ^ 64 = Y at first second third fourth ⊢
  linear_combination - Y ^ 3 * first - Y ^ 2 * second - Y * third - fourth

/-- The words of the product as one. -/
def Wide.word (z : Wide) : BitVec 256 := z.zhh ++ z.zhl ++ z.zlh ++ z.zll

theorem poly_word (z : Wide) : poly (ZMod 2) z.word = z.poly := by
  simp only [Wide.word, Wide.poly, poly_append]
  ring

/-- The polynomial of the reduction, in which GMAC works. -/
noncomputable def gcmPolynomial : (ZMod 2)[X] := X ^ 128 + (X ^ 7 + X ^ 2 + X + 1)

/-- The highest bit of the product is clear, so that nothing is lost in the shift. -/
theorem poly_shifted (hh hl yl yh : BitVec 64) :
    (wide hh hl yl yh).shifted.poly = X * (poly (ZMod 2) (yl ++ yh) * poly (ZMod 2) (hh ++ hl)) := by
  have whole := poly_shifted_words (wide hh hl yl yh)
  rw [poly_wide, ← poly_word] at whole
  have bounded : (X * (poly (ZMod 2) (yl ++ yh) * poly (ZMod 2) (hh ++ hl))).natDegree < 256 := by
    have first := natDegree_poly (ZMod 2) (yl ++ yh)
    have second := natDegree_poly (ZMod 2) (hh ++ hl)
    have product := natDegree_mul_le (p := poly (ZMod 2) (yl ++ yh)) (q := poly (ZMod 2) (hh ++ hl))
    have shifted := natDegree_mul_le (p := (X : (ZMod 2)[X])) (q := poly (ZMod 2) (yl ++ yh) * poly (ZMod 2) (hh ++ hl))
    have one : (X : (ZMod 2)[X]).natDegree ≤ 1 := natDegree_X_le
    omega
  have clear : (wide hh hl yl yh).zhh.getLsbD 63 = false := by
    have highest := congrArg (fun f => f.coeff 256) whole
    simp only [coeff_add, coeff_eq_zero_of_natDegree_lt bounded, ← pow_mul, coeff_X_pow_mul', coeff_poly] at highest
    rw [BitVec.getLsbD_of_ge _ 256 le_rfl] at highest
    have value : (((wide hh hl yl yh).zhh.getLsbD 63).toNat : ZMod 2) = 0 := by simpa using highest
    cases bit : (wide hh hl yl yh).zhh.getLsbD 63 with
    | false => rfl
    | true =>
        rw [bit] at value
        exact absurd value (by decide)
  have top : (wide hh hl yl yh).zhh >>> 63 = 0 := by
    apply BitVec.eq_of_getLsbD_eq
    intro i inside
    rw [BitVec.getLsbD_ushiftRight]
    refine Eq.trans ?_ BitVec.getLsbD_zero.symm
    by_cases low : i = 0
    · rw [low]
      exact clear
    · exact BitVec.getLsbD_of_ge _ _ (by omega)
  rw [top, poly_zero, mul_zero, add_zero, poly_word] at whole
  exact whole

theorem element_shifted (hh hl yl yh : BitVec 64) :
    element (wide hh hl yl yh).shifted.word = element (yl ++ yh) * element (hh ++ hl) := by
  have first := natDegree_poly (ZMod 2) (yl ++ yh)
  have second := natDegree_poly (ZMod 2) (hh ++ hl)
  have one : reflect 1 (X : (ZMod 2)[X]) = 1 := by
    have lowest := reflect_monomial 1 1 (R := ZMod 2)
    rw [revAt_le le_rfl, pow_one, Nat.sub_self, pow_zero] at lowest
    exact lowest
  calc element (wide hh hl yl yh).shifted.word
      = reflect (1 + (127 + 127)) (X * (poly (ZMod 2) (yl ++ yh) * poly (ZMod 2) (hh ++ hl))) := by
        rw [← poly_shifted, ← poly_word]
        exact element_eq_reflect _
    _ = reflect 1 X * (reflect 127 (poly (ZMod 2) (yl ++ yh)) * reflect 127 (poly (ZMod 2) (hh ++ hl))) := by
        rw [reflect_mul _ _ natDegree_X_le (natDegree_mul_le_of_le first second), reflect_mul _ _ first second]
    _ = element (yl ++ yh) * element (hh ++ hl) := by
        rw [one, one_mul]
        exact congrArg₂ _ (element_eq_reflect _).symm (element_eq_reflect _).symm

theorem element_word (z : Wide) :
    element z.word =
      element z.zhh + X ^ 64 * element z.zhl + (X ^ 64) ^ 2 * element z.zlh + (X ^ 64) ^ 3 * element z.zll := by
  have square : (X : (ZMod 2)[X]) ^ (64 + 64) = (X ^ 64) ^ 2 := by rw [← pow_mul]
  have cube : (X : (ZMod 2)[X]) ^ (64 + 64 + 64) = (X ^ 64) ^ 3 := by rw [← pow_mul]
  rw [Wide.word, element_append, element_append, element_append, square, cube]

/-- The last lines subtract a multiple of the polynomial. -/
theorem element_reduced (z : Wide) :
    element (z.reduced.1 ++ z.reduced.2) +
      gcmPolynomial *
        (element (z.zlh ^^^ ((z.zll <<< 63) ^^^ (z.zll <<< 62) ^^^ (z.zll <<< 57))) + X ^ 64 * element z.zll) =
      element z.word := by
  have square (Y : (ZMod 2)[X]) : Y ^ 128 = (Y ^ 64) ^ 2 := by rw [← pow_mul]
  have squared : gcmPolynomial = (X ^ 64) ^ 2 + (X ^ 7 + X ^ 2 + X + 1) := by
    unfold gcmPolynomial
    rw [square]
  have step (w : BitVec 64) {k : Nat} (inside : k ≤ 64) := element_shift w inside
  simp only [Wide.reduced]
  generalize folded : z.zlh ^^^ ((z.zll <<< 63) ^^^ (z.zll <<< 62) ^^^ (z.zll <<< 57)) = zlh
  have value := congrArg element folded
  have high1 := step zlh (show 1 ≤ 64 by decide)
  have high2 := step zlh (show 2 ≤ 64 by decide)
  have high7 := step zlh (show 7 ≤ 64 by decide)
  have low1 := step z.zll (show 1 ≤ 64 by decide)
  have low2 := step z.zll (show 2 ≤ 64 by decide)
  have low7 := step z.zll (show 7 ≤ 64 by decide)
  rw [element_append, element_word, squared]
  simp only [element_xor] at value ⊢
  simp only [pow_one, Nat.reduceSub] at high1 high2 high7 low1 low2 low7
  generalize (X : (ZMod 2)[X]) ^ 64 = Y at *
  linear_combination high1 + high2 + high7 + Y * (low1 + low2 + low7) - Y ^ 2 * value +
    (element zlh + element (zlh >>> 1) + element (zlh >>> 2) + element (zlh >>> 7) +
      Y * (element (zlh <<< 63) + element (zlh <<< 62) + element (zlh <<< 57)) +
      Y * (element z.zll + element (z.zll >>> 1) + element (z.zll >>> 2) + element (z.zll >>> 7)) +
      Y ^ 2 * (element (z.zll <<< 63) + element (z.zll <<< 62) + element (z.zll <<< 57))) * two_eq_zero

end Reduction

section Field

theorem degree_reduction {n : ℕ} (large : 7 < n) :
    (X ^ n + (X ^ 7 + X ^ 2 + X + 1) : (ZMod 2)[X]).Monic ∧
      (X ^ n + (X ^ 7 + X ^ 2 + X + 1) : (ZMod 2)[X]).degree = n := by
  have seventh : (X ^ 7 + X ^ 2 + X + 1 : (ZMod 2)[X]).degree ≤ 7 := by compute_degree
  have tail : (X ^ 7 + X ^ 2 + X + 1 : (ZMod 2)[X]).degree < n :=
    lt_of_le_of_lt seventh (Nat.cast_lt.mpr large)
  refine ⟨monic_X_pow_add tail, ?_⟩
  rw [degree_add_eq_left_of_degree_lt, degree_X_pow]
  rwa [degree_X_pow]

theorem element_degree (w : BitVec 128) : (element w).degree < (128 : ℕ) := by
  rw [degree_lt_iff_coeff_zero]
  intro i above
  rw [coeff_element, BitVec.getMsbD_of_ge w i above]
  rfl

/-- The words that come out are the product in GF(2^128), and each expansion of the macro has no carries. -/
theorem gfmul_product :
    (∀ hh hl y0 y1 : BitVec 64,
      element (hton64 (s_gfmul hh hl y0 y1).1 ++ hton64 (s_gfmul hh hl y0 y1).2) =
        (element (hton64 y0 ++ hton64 y1) * element (hh ++ hl)) %ₘ gcmPolynomial) ∧
      ∀ x y : BitVec 32, (s_bmul32 x y).1 ++ (s_bmul32 x y).2 = carryless x y 32 := by
  constructor
  · intro hh hl y0 y1
    have product := element_shifted hh hl (hton64 y0) (hton64 y1)
    have reduced := element_reduced (wide hh hl (hton64 y0) (hton64 y1)).shifted
    rw [product] at reduced
    have facts : gcmPolynomial.Monic ∧ gcmPolynomial.degree = (128 : ℕ) := by
      unfold gcmPolynomial
      exact degree_reduction (by decide)
    have smaller := element_degree ((wide hh hl (hton64 y0) (hton64 y1)).shifted.reduced.1 ++
      (wide hh hl (hton64 y0) (hton64 y1)).shifted.reduced.2)
    rw [← facts.2] at smaller
    generalize gcmPolynomial = g at facts reduced smaller ⊢
    have unique := div_modByMonic_unique _ _ facts.1 ⟨reduced, smaller⟩
    rw [unique.2, s_gfmul, hton64_hton64, hton64_hton64]
  · intro x y
    apply poly_injective
    rw [poly_s_bmul32, poly_carryless]

end Field

end ZeroTierNode.GfMul
