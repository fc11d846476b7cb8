import Mathlib.Data.List.GetD
import Mathlib.Data.Nat.ModEq
import Mathlib.Algebra.BigOperators.Ring.Finset
import ZeroTierNode.Library.LittleEndian
import ZeroTierNode.Library.StreamBuffers

/-!
Poly1305 as it is compiled for 32-bit words: numbers below 2^130 in five limbs of 26 bits, products in 64 bits, carries
that are put off, and a buffer between the calls of `poly1305_update`. No sum wraps, and the tag is the polynomial of
the message at the clamped key modulo 2^130 - 5, plus the pad.
-/

namespace ZeroTierNode.Poly1305
open Library.Bytes Library.StreamBuffers Library.LittleEndian

section Code

/-- `r` and `h` of the state. -/
structure Limbs where
  l0 : BitVec 32
  l1 : BitVec 32
  l2 : BitVec 32
  l3 : BitVec 32
  l4 : BitVec 32

/-- `poly1305_state_internal_t`; `final` is set and used in `poly1305_finish` only. -/
structure State where
  r : Limbs
  h : Limbs
  pad : Nat → BitVec 32
  leftover : Nat
  buffer : Memory

/-- `U8TO32` -/
def u8to32 (p : Nat → Byte) : BitVec 32 :=
  (p 0).setWidth 32 ||| ((p 1).setWidth 32 <<< 8) ||| ((p 2).setWidth 32 <<< 16) ||| ((p 3).setWidth 32 <<< 24)

def poly1305Init (key : Nat → Byte) : State where
  r := ⟨u8to32 key &&& 0x3ffffff, (u8to32 fun i => key (3 + i)) >>> 2 &&& 0x3ffff03,
    (u8to32 fun i => key (6 + i)) >>> 4 &&& 0x3ffc0ff, (u8to32 fun i => key (9 + i)) >>> 6 &&& 0x3f03fff,
    (u8to32 fun i => key (12 + i)) >>> 8 &&& 0x00fffff⟩
  h := ⟨0, 0, 0, 0, 0⟩
  pad := fun j => u8to32 fun i => key (16 + 4 * j + i)
  leftover := 0
  buffer := fun _ => 0

/-- "h += m[i]" -/
def addBlock (h : Limbs) (hibit : BitVec 32) (m : Nat → Byte) : Limbs :=
  ⟨h.l0 + (u8to32 m &&& 0x3ffffff), h.l1 + ((u8to32 fun i => m (3 + i)) >>> 2 &&& 0x3ffffff),
    h.l2 + ((u8to32 fun i => m (6 + i)) >>> 4 &&& 0x3ffffff), h.l3 + ((u8to32 fun i => m (9 + i)) >>> 6 &&& 0x3ffffff),
    h.l4 + ((u8to32 fun i => m (12 + i)) >>> 8 ||| hibit)⟩

structure Products where
  d0 : BitVec 64
  d1 : BitVec 64
  d2 : BitVec 64
  d3 : BitVec 64
  d4 : BitVec 64

/-- `((unsigned long long)a * b)` -/
def wide (a b : BitVec 32) : BitVec 64 := a.setWidth 64 * b.setWidth 64

/-- "h *= r" -/
def products (h r : Limbs) : Products :=
  let s1 := r.l1 * 5
  let s2 := r.l2 * 5
  let s3 := r.l3 * 5
  let s4 := r.l4 * 5
  ⟨wide h.l0 r.l0 + wide h.l1 s4 + wide h.l2 s3 + wide h.l3 s2 + wide h.l4 s1,
    wide h.l0 r.l1 + wide h.l1 r.l0 + wide h.l2 s4 + wide h.l3 s3 + wide h.l4 s2,
    wide h.l0 r.l2 + wide h.l1 r.l1 + wide h.l2 r.l0 + wide h.l3 s4 + wide h.l4 s3,
    wide h.l0 r.l3 + wide h.l1 r.l2 + wide h.l2 r.l1 + wide h.l3 r.l0 + wide h.l4 s4,
    wide h.l0 r.l4 + wide h.l1 r.l3 + wide h.l2 r.l2 + wide h.l3 r.l1 + wide h.l4 r.l0⟩

/-- "(partial) h %= p" -/
def partialMod (d : Products) : Limbs :=
  let c := (d.d0 >>> 26).setWidth 32
  let h0 := d.d0.setWidth 32 &&& 0x3ffffff
  let d1 := d.d1 + c.setWidth 64
  let c := (d1 >>> 26).setWidth 32
  let h1 := d1.setWidth 32 &&& 0x3ffffff
  let d2 := d.d2 + c.setWidth 64
  let c := (d2 >>> 26).setWidth 32
  let h2 := d2.setWidth 32 &&& 0x3ffffff
  let d3 := d.d3 + c.setWidth 64
  let c := (d3 >>> 26).setWidth 32
  let h3 := d3.setWidth 32 &&& 0x3ffffff
  let d4 := d.d4 + c.setWidth 64
  let c := (d4 >>> 26).setWidth 32
  let h4 := d4.setWidth 32 &&& 0x3ffffff
  let h0 := h0 + c * 5
  let c := h0 >>> 26
  ⟨h0 &&& 0x3ffffff, h1 + c, h2, h3, h4⟩

def block (r h : Limbs) (hibit : BitVec 32) (m : Nat → Byte) : Limbs := partialMod (products (addBlock h hibit m) r)

/-- The loop of `poly1305_blocks`, for so many blocks. -/
def blocks (r : Limbs) (hibit : BitVec 32) : Nat → Limbs → (Nat → Byte) → Limbs
  | 0, h, _ => h
  | n + 1, h, m => blocks r hibit n (block r h hibit m) fun i => m (16 + i)

/-- `1 << 24` unless `final` -/
def hibit : BitVec 32 := 0x1000000

/-- "process full blocks" and "store leftover", behind nothing left over -/
def takeBlocks (st : State) (m : List Byte) : State :=
  let full := m.length / 16
  let rest := m.drop (16 * full)
  { st with h := blocks st.r hibit full st.h fun i => m.getD i 0,
            buffer := written st.leftover (fun i => rest.getD i 0) rest.length st.buffer,
            leftover := st.leftover + rest.length }

def poly1305Update (st : State) (m : List Byte) : State :=
  if st.leftover ≠ 0 then
    let want := min (16 - st.leftover) m.length
    let buffer := written st.leftover (fun i => m.getD i 0) want st.buffer
    let leftover := st.leftover + want
    if leftover < 16 then { st with buffer := buffer, leftover := leftover }
    else takeBlocks { st with h := blocks st.r hibit 1 st.h buffer, buffer := buffer, leftover := 0 } (m.drop want)
  else takeBlocks st m

/-- "fully carry h" -/
def carry (h : Limbs) : Limbs :=
  let c := h.l1 >>> 26
  let h1 := h.l1 &&& 0x3ffffff
  let h2 := h.l2 + c
  let c := h2 >>> 26
  let h2 := h2 &&& 0x3ffffff
  let h3 := h.l3 + c
  let c := h3 >>> 26
  let h3 := h3 &&& 0x3ffffff
  let h4 := h.l4 + c
  let c := h4 >>> 26
  let h4 := h4 &&& 0x3ffffff
  let h0 := h.l0 + c * 5
  let c := h0 >>> 26
  ⟨h0 &&& 0x3ffffff, h1 + c, h2, h3, h4⟩

/-- "compute h + -p", "select h if h < p, or h + -p if h >= p" -/
def reduce (h : Limbs) : Limbs :=
  let g0 := h.l0 + 5
  let c := g0 >>> 26
  let g0 := g0 &&& 0x3ffffff
  let g1 := h.l1 + c
  let c := g1 >>> 26
  let g1 := g1 &&& 0x3ffffff
  let g2 := h.l2 + c
  let c := g2 >>> 26
  let g2 := g2 &&& 0x3ffffff
  let g3 := h.l3 + c
  let c := g3 >>> 26
  let g3 := g3 &&& 0x3ffffff
  let g4 := h.l4 + c - 0x4000000
  let mask := (g4 >>> 31) - 1
  ⟨h.l0 &&& ~~~mask ||| g0 &&& mask, h.l1 &&& ~~~mask ||| g1 &&& mask, h.l2 &&& ~~~mask ||| g2 &&& mask,
    h.l3 &&& ~~~mask ||| g3 &&& mask, h.l4 &&& ~~~mask ||| g4 &&& mask⟩

/-- "h = h % (2^128)" -/
def words (h : Limbs) : Nat → BitVec 32
  | 0 => h.l0 ||| h.l1 <<< 26
  | 1 => h.l1 >>> 6 ||| h.l2 <<< 20
  | 2 => h.l2 >>> 12 ||| h.l3 <<< 14
  | _ => h.l3 >>> 18 ||| h.l4 <<< 8

/-- `f` of "mac = (h + pad) % (2^128)", for one word and those before it. -/
def padded (h pad : Nat → BitVec 32) : Nat → BitVec 64
  | 0 => (h 0).setWidth 64 + (pad 0).setWidth 64
  | j + 1 => (h (j + 1)).setWidth 64 + (pad (j + 1)).setWidth 64 + (padded h pad j >>> 32)

/-- `U32TO8` -/
def u32to8 (v : BitVec 32) : List Byte :=
  [v.setWidth 8, (v >>> 8).setWidth 8, (v >>> 16).setWidth 8, (v >>> 24).setWidth 8]

def poly1305Finish (st : State) : List Byte :=
  let h :=
    if st.leftover ≠ 0 then
      let marked := Function.update st.buffer st.leftover 1
      block st.r st.h 0 (written (st.leftover + 1) (fun _ => 0) (16 - (st.leftover + 1)) marked)
    else st.h
  let h := words (reduce (carry h))
  let mac (j : Nat) : List Byte := u32to8 ((padded h st.pad j).setWidth 32)
  mac 0 ++ mac 1 ++ mac 2 ++ mac 3

/-- `Poly1305::compute` -/
def compute (data key : List Byte) : List Byte :=
  poly1305Finish (poly1305Update (poly1305Init fun i => key.getD i 0) data)

theorem length_compute (data key : List Byte) : (compute data key).length = 16 := rfl

end Code

/-- The modulus. -/
abbrev p : Nat := 2 ^ 130 - 5

def Limbs.value (h : Limbs) : Nat :=
  h.l0.toNat + 2 ^ 26 * h.l1.toNat + 2 ^ 52 * h.l2.toNat + 2 ^ 78 * h.l3.toNat + 2 ^ 104 * h.l4.toNat

/-- All limbs are below a bound. -/
structure Limbs.Below (h : Limbs) (n : Nat) : Prop where
  l0 : h.l0.toNat < n
  l1 : h.l1.toNat < n
  l2 : h.l2.toNat < n
  l3 : h.l3.toNat < n
  l4 : h.l4.toNat < n

/-- What is left after a partial reduction: only the second limb may be longer than 26 bits, and not by much. -/
structure Limbs.Reduced (h : Limbs) : Prop where
  l0 : h.l0.toNat < 2 ^ 26
  l1 : h.l1.toNat < 2 ^ 26 + 64
  l2 : h.l2.toNat < 2 ^ 26
  l3 : h.l3.toNat < 2 ^ 26
  l4 : h.l4.toNat < 2 ^ 26

def Products.value (d : Products) : Nat :=
  d.d0.toNat + 2 ^ 26 * d.d1.toNat + 2 ^ 52 * d.d2.toNat + 2 ^ 78 * d.d3.toNat + 2 ^ 104 * d.d4.toNat

section Words

theorem and_mask (x : BitVec 32) : (x &&& 0x3ffffff).toNat = x.toNat % 2 ^ 26 :=
  Nat.and_two_pow_sub_one_eq_mod x.toNat 26

/-- The bits of words that do not meet. -/
theorem or_toNat {x y : BitVec 32} {k : Nat} (low : x.toNat < 2 ^ k) (high : 2 ^ k ∣ y.toNat) :
    (x ||| y).toNat = x.toNat + y.toNat := by
  obtain ⟨n, whole⟩ := high
  rw [BitVec.toNat_or, whole, Nat.or_comm, ← Nat.two_pow_add_eq_or_of_lt low, Nat.add_comm]

theorem shiftLeft_dvd (x : BitVec 32) {k : Nat} (small : k ≤ 32) : 2 ^ k ∣ (x <<< k).toNat := by
  rw [BitVec.toNat_shiftLeft, Nat.shiftLeft_eq]
  exact (Nat.dvd_mod_iff (Nat.pow_dvd_pow 2 small)).mpr (Nat.dvd_mul_left _ _)

theorem u8to32_toNat (bytes : Nat → Byte) : (u8to32 bytes).toNat = valueOf 4 bytes := by
  have b0 := (bytes 0).isLt
  have b1 := (bytes 1).isLt
  have b2 := (bytes 2).isLt
  have b3 := (bytes 3).isLt
  have widened (b : Byte) : (b.setWidth 32).toNat = b.toNat := by
    rw [BitVec.toNat_setWidth, Nat.mod_eq_of_lt (Nat.lt_of_lt_of_le b.isLt (by decide))]
  have shifted (b : Byte) (k : Nat) (small : k ≤ 24) : (b.setWidth 32 <<< k).toNat = b.toNat * 2 ^ k := by
    have bound : b.toNat * 2 ^ k < 2 ^ 32 :=
      calc
        b.toNat * 2 ^ k < 2 ^ 8 * 2 ^ k := Nat.mul_lt_mul_of_pos_right b.isLt (Nat.two_pow_pos k)
        _ = 2 ^ (8 + k) := (Nat.pow_add 2 8 k).symm
        _ ≤ 2 ^ 32 := Nat.pow_le_pow_right (by decide) (by omega)
    rw [BitVec.toNat_shiftLeft, widened, Nat.shiftLeft_eq, Nat.mod_eq_of_lt bound]
  have first : ((bytes 0).setWidth 32 ||| (bytes 1).setWidth 32 <<< 8).toNat =
      (bytes 0).toNat + (bytes 1).toNat * 2 ^ 8 := by
    rw [or_toNat (by rw [widened]; exact b0) (shiftLeft_dvd _ (by decide)), widened, shifted _ _ (by decide)]
  have second : ((bytes 0).setWidth 32 ||| (bytes 1).setWidth 32 <<< 8 ||| (bytes 2).setWidth 32 <<< 16).toNat =
      (bytes 0).toNat + (bytes 1).toNat * 2 ^ 8 + (bytes 2).toNat * 2 ^ 16 := by
    rw [or_toNat (by rw [first]; omega) (shiftLeft_dvd _ (by decide)), first, shifted _ _ (by decide)]
  rw [u8to32, or_toNat (by rw [second]; omega) (shiftLeft_dvd _ (by decide)), second, shifted _ _ (by decide)]
  simp only [valueOf, Nat.zero_add, Nat.reduceAdd]
  omega

theorem shift_toNat (x : BitVec 32) (k : Nat) : (x >>> k).toNat = x.toNat / 2 ^ k := by
  rw [BitVec.toNat_ushiftRight, Nat.shiftRight_eq_div_pow]

/-- The carry of one limb added to the next. -/
theorem add_carry {x : BitVec 32} (small : x.toNat < 2 ^ 31) (y : BitVec 32) :
    (x + y >>> 26).toNat = x.toNat + y.toNat / 2 ^ 26 := by
  have less := y.isLt
  rw [BitVec.toNat_add, shift_toNat]
  omega

theorem times_five {x : BitVec 32} (small : 5 * x.toNat < 2 ^ 32) : (x * 5).toNat = 5 * x.toNat := by
  rw [BitVec.toNat_mul, Nat.mul_comm]
  exact Nat.mod_eq_of_lt small

/-- The digits up to a place and those of one more. -/
theorem mod_add_digit (x k j : Nat) : x % 2 ^ k + 2 ^ k * (x / 2 ^ k % 2 ^ j) = x % 2 ^ (k + j) := by
  rw [Nat.pow_add, Nat.mod_mul]

/-- A number from its limbs. -/
theorem limbs_of (x : Nat) : x % 2 ^ 26 + 2 ^ 26 * (x / 2 ^ 26 % 2 ^ 26) + 2 ^ 52 * (x / 2 ^ 52 % 2 ^ 26) +
    2 ^ 78 * (x / 2 ^ 78 % 2 ^ 26) + 2 ^ 104 * (x / 2 ^ 104) = x := by
  have second : x % 2 ^ 26 + 2 ^ 26 * (x / 2 ^ 26 % 2 ^ 26) = x % 2 ^ 52 := mod_add_digit x 26 26
  have third : x % 2 ^ 52 + 2 ^ 52 * (x / 2 ^ 52 % 2 ^ 26) = x % 2 ^ 78 := mod_add_digit x 52 26
  have fourth : x % 2 ^ 78 + 2 ^ 78 * (x / 2 ^ 78 % 2 ^ 26) = x % 2 ^ 104 := mod_add_digit x 78 26
  rw [second, third, fourth, Nat.mod_add_div]

/-- A number below 2^128 from its words. -/
theorem words_of (x : Nat) : x % 2 ^ 32 + 2 ^ 32 * (x / 2 ^ 32 % 2 ^ 32) + 2 ^ 64 * (x / 2 ^ 64 % 2 ^ 32) +
    2 ^ 96 * (x / 2 ^ 96 % 2 ^ 32) = x % 2 ^ 128 := by
  have second : x % 2 ^ 32 + 2 ^ 32 * (x / 2 ^ 32 % 2 ^ 32) = x % 2 ^ 64 := mod_add_digit x 32 32
  have third : x % 2 ^ 64 + 2 ^ 64 * (x / 2 ^ 64 % 2 ^ 32) = x % 2 ^ 96 := mod_add_digit x 64 32
  have fourth : x % 2 ^ 96 + 2 ^ 96 * (x / 2 ^ 96 % 2 ^ 32) = x % 2 ^ 128 := mod_add_digit x 96 32
  rw [second, third, fourth]

theorem wide_toNat (a b : BitVec 32) : (wide a b).toNat = a.toNat * b.toNat := by
  have bound : a.toNat * b.toNat < 2 ^ 32 * 2 ^ 32 := Nat.mul_lt_mul'' a.isLt b.isLt
  rw [wide, BitVec.toNat_mul, BitVec.toNat_setWidth, BitVec.toNat_setWidth,
    Nat.mod_eq_of_lt (Nat.lt_trans a.isLt (by decide)), Nat.mod_eq_of_lt (Nat.lt_trans b.isLt (by decide)),
    Nat.mod_eq_of_lt (Nat.lt_of_lt_of_le bound (by decide))]

/-- Five products that fit in a word together. -/
theorem sum_toNat {a b c d e : BitVec 64} {n : Nat} (fits : 5 * n ≤ 2 ^ 64) (la : a.toNat < n) (lb : b.toNat < n)
    (lc : c.toNat < n) (ld : d.toNat < n) (le : e.toNat < n) :
    (a + b + c + d + e).toNat = a.toNat + b.toNat + c.toNat + d.toNat + e.toNat ∧
      (a + b + c + d + e).toNat < 5 * n := by
  simp only [BitVec.toNat_add]
  omega

end Words

section Blocks

variable {h r : Limbs} {m : Nat → Byte}

/-- The five parts of a block. -/
theorem window_toNat (m : Nat → Byte) (k rest : Nat) (sum : k + 4 + rest = 16) :
    (u8to32 fun i => m (k + i)).toNat = valueOf 16 m / 256 ^ k % 2 ^ 32 := by
  rw [u8to32_toNat, valueOf_window k 4 rest m, sum]
  rfl

/-- A limb that one word of the block holds. -/
theorem limb_window (m : Nat → Byte) (k rest : Nat) (sum : k + 4 + rest = 16) {j : Nat} (small : j ≤ 6) :
    (u8to32 fun i => m (k + i)).toNat / 2 ^ j % 2 ^ 26 = valueOf 16 m / 2 ^ (8 * k + j) % 2 ^ 26 := by
  have word : 2 ^ 32 = 2 ^ j * 2 ^ (32 - j) := by
    rw [← Nat.pow_add, Nat.add_sub_cancel' (Nat.le_trans small (by decide))]
  have place : 256 ^ k * 2 ^ j = 2 ^ (8 * k + j) := by rw [Nat.pow_add, Nat.pow_mul]
  rw [window_toNat m k rest sum, word, Nat.mod_mul_right_div_self,
    Nat.mod_mod_of_dvd _ (Nat.pow_dvd_pow 2 (by omega)), Nat.div_div_eq_div_mul, place]

theorem first_window (m : Nat → Byte) : (u8to32 m).toNat % 2 ^ 26 = valueOf 16 m % 2 ^ 26 := by
  have window := window_toNat m 0 12 rfl
  simp only [Nat.zero_add, Nat.pow_zero, Nat.div_one] at window
  rw [window]
  exact Nat.mod_mod_of_dvd _ (by decide)

/-- The last word of the block has nothing above it. -/
theorem last_window (m : Nat → Byte) : (u8to32 fun i => m (12 + i)).toNat / 2 ^ 8 = valueOf 16 m / 2 ^ 104 := by
  have below : valueOf 16 m / 256 ^ 12 < 2 ^ 32 := Nat.div_lt_of_lt_mul (valueOf_lt 16 m)
  rw [window_toNat m 12 0 rfl, Nat.mod_eq_of_lt below, Nat.div_div_eq_div_mul]
  rfl

/-- Adding a block adds its number, and leaves room in the limbs. -/
theorem addBlock_spec (reduced : h.Reduced) {high : BitVec 32} (bit : high.toNat = 0 ∨ high.toNat = 2 ^ 24) :
    (addBlock h high m).value = h.value + valueOf 16 m + 2 ^ 104 * high.toNat ∧
      (addBlock h high m).Below (2 ^ 27 + 64) := by
  obtain ⟨b0, b1, b2, b3, b4⟩ := reduced
  have small : valueOf 16 m / 2 ^ 104 < 2 ^ 24 := Nat.div_lt_of_lt_mul (valueOf_lt 16 m)
  have p0 : (u8to32 m &&& 0x3ffffff).toNat = valueOf 16 m % 2 ^ 26 := by
    rw [and_mask]
    exact first_window m
  have p1 : ((u8to32 fun i => m (3 + i)) >>> 2 &&& 0x3ffffff).toNat = valueOf 16 m / 2 ^ 26 % 2 ^ 26 := by
    rw [and_mask, shift_toNat]
    exact limb_window m 3 9 rfl (by decide)
  have p2 : ((u8to32 fun i => m (6 + i)) >>> 4 &&& 0x3ffffff).toNat = valueOf 16 m / 2 ^ 52 % 2 ^ 26 := by
    rw [and_mask, shift_toNat]
    exact limb_window m 6 6 rfl (by decide)
  have p3 : ((u8to32 fun i => m (9 + i)) >>> 6 &&& 0x3ffffff).toNat = valueOf 16 m / 2 ^ 78 % 2 ^ 26 := by
    rw [and_mask, shift_toNat]
    exact limb_window m 9 3 rfl (by decide)
  have top : ((u8to32 fun i => m (12 + i)) >>> 8).toNat = valueOf 16 m / 2 ^ 104 := by
    rw [shift_toNat]
    exact last_window m
  have p4 : ((u8to32 fun i => m (12 + i)) >>> 8 ||| high).toNat = valueOf 16 m / 2 ^ 104 + high.toNat := by
    have low : ((u8to32 fun i => m (12 + i)) >>> 8).toNat < 2 ^ 24 := by
      rw [top]
      exact small
    have aligned : 2 ^ 24 ∣ high.toNat := by
      rcases bit with none | one
      · rw [none]
        exact Nat.dvd_zero _
      · rw [one]
    rw [or_toNat low aligned, top]
  have digits := limbs_of (valueOf 16 m)
  have l0 := Nat.mod_lt (valueOf 16 m) (Nat.two_pow_pos 26)
  have l1 := Nat.mod_lt (valueOf 16 m / 2 ^ 26) (Nat.two_pow_pos 26)
  have l2 := Nat.mod_lt (valueOf 16 m / 2 ^ 52) (Nat.two_pow_pos 26)
  have l3 := Nat.mod_lt (valueOf 16 m / 2 ^ 78) (Nat.two_pow_pos 26)
  -- only the digits are used from here on
  generalize valueOf 16 m % 2 ^ 26 = x0 at p0 digits l0
  generalize valueOf 16 m / 2 ^ 26 % 2 ^ 26 = x1 at p1 digits l1
  generalize valueOf 16 m / 2 ^ 52 % 2 ^ 26 = x2 at p2 digits l2
  generalize valueOf 16 m / 2 ^ 78 % 2 ^ 26 = x3 at p3 digits l3
  generalize valueOf 16 m / 2 ^ 104 = x4 at p4 digits small
  have s0 : (addBlock h high m).l0.toNat = h.l0.toNat + x0 := by
    rw [addBlock, BitVec.toNat_add_of_lt (by rw [p0]; omega), p0]
  have s1 : (addBlock h high m).l1.toNat = h.l1.toNat + x1 := by
    rw [addBlock, BitVec.toNat_add_of_lt (by rw [p1]; omega), p1]
  have s2 : (addBlock h high m).l2.toNat = h.l2.toNat + x2 := by
    rw [addBlock, BitVec.toNat_add_of_lt (by rw [p2]; omega), p2]
  have s3 : (addBlock h high m).l3.toNat = h.l3.toNat + x3 := by
    rw [addBlock, BitVec.toNat_add_of_lt (by rw [p3]; omega), p3]
  have s4 : (addBlock h high m).l4.toNat = h.l4.toNat + (x4 + high.toNat) := by
    rw [addBlock, BitVec.toNat_add_of_lt (by rw [p4]; omega), p4]
  constructor
  · rw [Limbs.value, Limbs.value, s0, s1, s2, s3, s4, ← digits]
    omega
  · refine ⟨?_, ?_, ?_, ?_, ?_⟩ <;> omega

section Products

variable {a c : BitVec 32}

theorem wide_five (small : c.toNat < 2 ^ 26) : (wide a (c * 5)).toNat = 5 * (a.toNat * c.toNat) := by
  rw [wide_toNat, times_five (by omega), Nat.mul_left_comm]

theorem wide_lt (left : a.toNat < 2 ^ 27 + 64) (right : c.toNat < 2 ^ 26) : (wide a c).toNat < 2 ^ 53 + 2 ^ 32 := by
  rw [wide_toNat]
  calc
    a.toNat * c.toNat < (2 ^ 27 + 64) * 2 ^ 26 := Nat.mul_lt_mul'' left right
    _ = 2 ^ 53 + 2 ^ 32 := by decide

theorem wide_five_lt (left : a.toNat < 2 ^ 27 + 64) (right : c.toNat < 2 ^ 26) :
    (wide a (c * 5)).toNat < 5 * (2 ^ 53 + 2 ^ 32) := by
  have plain := wide_lt left right
  rw [wide_toNat] at plain
  rw [wide_five right]
  omega

theorem wide_lt_five (left : a.toNat < 2 ^ 27 + 64) (right : c.toNat < 2 ^ 26) :
    (wide a c).toNat < 5 * (2 ^ 53 + 2 ^ 32) := Nat.lt_of_lt_of_le (wide_lt left right) (by decide)

end Products

/-- Small enough for the carries. -/
structure Products.Small (d : Products) : Prop where
  d0 : d.d0.toNat < 25 * (2 ^ 53 + 2 ^ 32)
  d1 : d.d1.toNat < 25 * (2 ^ 53 + 2 ^ 32)
  d2 : d.d2.toNat < 25 * (2 ^ 53 + 2 ^ 32)
  d3 : d.d3.toNat < 25 * (2 ^ 53 + 2 ^ 32)
  d4 : d.d4.toNat < 5 * (2 ^ 53 + 2 ^ 32)

/-- The products are exact: what is above 2^130 comes back at the low end, times five. -/
theorem products_spec (below : h.Below (2 ^ 27 + 64)) (clamped : r.Below (2 ^ 26)) :
    (products h r).value ≡ h.value * r.value [MOD p] ∧ (products h r).Small := by
  obtain ⟨a0, a1, a2, a3, a4⟩ := below
  obtain ⟨c0, c1, c2, c3, c4⟩ := clamped
  have e0 := sum_toNat (by decide) (wide_lt_five a0 c0) (wide_five_lt a1 c4) (wide_five_lt a2 c3) (wide_five_lt a3 c2)
    (wide_five_lt a4 c1)
  have e1 := sum_toNat (by decide) (wide_lt_five a0 c1) (wide_lt_five a1 c0) (wide_five_lt a2 c4) (wide_five_lt a3 c3)
    (wide_five_lt a4 c2)
  have e2 := sum_toNat (by decide) (wide_lt_five a0 c2) (wide_lt_five a1 c1) (wide_lt_five a2 c0) (wide_five_lt a3 c4)
    (wide_five_lt a4 c3)
  have e3 := sum_toNat (by decide) (wide_lt_five a0 c3) (wide_lt_five a1 c2) (wide_lt_five a2 c1) (wide_lt_five a3 c0)
    (wide_five_lt a4 c4)
  have e4 := sum_toNat (by decide) (wide_lt a0 c4) (wide_lt a1 c3) (wide_lt a2 c2) (wide_lt a3 c1) (wide_lt a4 c0)
  refine ⟨?_, e0.2, e1.2, e2.2, e3.2, e4.2⟩
  have f0 := e0.1
  have f1 := e1.1
  have f2 := e2.1
  have f3 := e3.1
  have f4 := e4.1
  simp only [wide_toNat, wide_five c1, wide_five c2, wide_five c3, wide_five c4] at f0 f1 f2 f3 f4
  rw [Products.value, Limbs.value, Limbs.value, products]
  dsimp only
  rw [f0, f1, f2, f3, f4]
  generalize h.l0.toNat = x0
  generalize h.l1.toNat = x1
  generalize h.l2.toNat = x2
  generalize h.l3.toNat = x3
  generalize h.l4.toNat = x4
  generalize r.l0.toNat = y0
  generalize r.l1.toNat = y1
  generalize r.l2.toNat = y2
  generalize r.l3.toNat = y3
  generalize r.l4.toNat = y4
  -- the products at 2^130 and above
  generalize above : x1 * y4 + x2 * y3 + x3 * y2 + x4 * y1 + 2 ^ 26 * (x2 * y4 + x3 * y3 + x4 * y2) +
    2 ^ 52 * (x3 * y4 + x4 * y3) + 2 ^ 78 * (x4 * y4) = k
  have whole : (x0 + 2 ^ 26 * x1 + 2 ^ 52 * x2 + 2 ^ 78 * x3 + 2 ^ 104 * x4) *
      (y0 + 2 ^ 26 * y1 + 2 ^ 52 * y2 + 2 ^ 78 * y3 + 2 ^ 104 * y4) =
      x0 * y0 + 5 * (x1 * y4) + 5 * (x2 * y3) + 5 * (x3 * y2) + 5 * (x4 * y1) +
        2 ^ 26 * (x0 * y1 + x1 * y0 + 5 * (x2 * y4) + 5 * (x3 * y3) + 5 * (x4 * y2)) +
        2 ^ 52 * (x0 * y2 + x1 * y1 + x2 * y0 + 5 * (x3 * y4) + 5 * (x4 * y3)) +
        2 ^ 78 * (x0 * y3 + x1 * y2 + x2 * y1 + x3 * y0 + 5 * (x4 * y4)) +
        2 ^ 104 * (x0 * y4 + x1 * y3 + x2 * y2 + x3 * y1 + x4 * y0) + p * k := by
    rw [← above]
    have modulus : p = 1361129467683753853853498429727072845819 := by decide
    rw [modulus]
    ring
  rw [whole]
  exact (Nat.add_mul_mod_self_left _ p k).symm

theorem carry_toNat (d : BitVec 64) : ((d >>> 26).setWidth 32).toNat = d.toNat / 2 ^ 26 % 2 ^ 32 := by
  rw [BitVec.toNat_setWidth, BitVec.toNat_ushiftRight, Nat.shiftRight_eq_div_pow]

theorem low_toNat (d : BitVec 64) : (d.setWidth 32 &&& 0x3ffffff).toNat = d.toNat % 2 ^ 26 := by
  rw [and_mask, BitVec.toNat_setWidth]
  omega

theorem widen_toNat (c : BitVec 32) : (c.setWidth 64).toNat = c.toNat := by
  rw [BitVec.toNat_setWidth]
  exact Nat.mod_eq_of_lt (Nat.lt_trans c.isLt (by decide))

theorem carry_small {d : BitVec 64} (small : d.toNat < 2 ^ 58) :
    ((d >>> 26).setWidth 32).toNat = d.toNat / 2 ^ 26 := by
  rw [carry_toNat, Nat.mod_eq_of_lt (Nat.div_lt_of_lt_mul (Nat.lt_of_lt_of_le small (by decide)))]

theorem add_widened {d : BitVec 64} (small : d.toNat < 2 ^ 63) (c : BitVec 32) :
    (d + c.setWidth 64).toNat = d.toNat + c.toNat := by
  have less := c.isLt
  rw [BitVec.toNat_add, widen_toNat]
  omega

/-- The carries keep the number, and what they leave is reduced again. -/
theorem partialMod_spec {d : Products} (small : d.Small) :
    (partialMod d).Reduced ∧ (partialMod d).value ≡ d.value [MOD p] := by
  obtain ⟨b0, b1, b2, b3, b4⟩ := small
  rw [partialMod]
  generalize v0 : (d.d0 >>> 26).setWidth 32 = c0
  have w0 : c0.toNat = d.d0.toNat / 2 ^ 26 := by
    rw [← v0]
    exact carry_small (by omega)
  generalize s1 : d.d1 + c0.setWidth 64 = d1
  have t1 : d1.toNat = d.d1.toNat + c0.toNat := by
    rw [← s1]
    exact add_widened (Nat.lt_trans b1 (by decide)) c0
  generalize v1 : (d1 >>> 26).setWidth 32 = c1
  have w1 : c1.toNat = d1.toNat / 2 ^ 26 := by
    rw [← v1]
    exact carry_small (by omega)
  generalize s2 : d.d2 + c1.setWidth 64 = d2
  have t2 : d2.toNat = d.d2.toNat + c1.toNat := by
    rw [← s2]
    exact add_widened (Nat.lt_trans b2 (by decide)) c1
  generalize v2 : (d2 >>> 26).setWidth 32 = c2
  have w2 : c2.toNat = d2.toNat / 2 ^ 26 := by
    rw [← v2]
    exact carry_small (by omega)
  generalize s3 : d.d3 + c2.setWidth 64 = d3
  have t3 : d3.toNat = d.d3.toNat + c2.toNat := by
    rw [← s3]
    exact add_widened (Nat.lt_trans b3 (by decide)) c2
  generalize v3 : (d3 >>> 26).setWidth 32 = c3
  have w3 : c3.toNat = d3.toNat / 2 ^ 26 := by
    rw [← v3]
    exact carry_small (by omega)
  generalize s4 : d.d4 + c3.setWidth 64 = d4
  have t4 : d4.toNat = d.d4.toNat + c3.toNat := by
    rw [← s4]
    exact add_widened (Nat.lt_trans b4 (by decide)) c3
  generalize v4 : (d4 >>> 26).setWidth 32 = c4
  have w4 : c4.toNat = d4.toNat / 2 ^ 26 := by
    rw [← v4]
    exact carry_small (by omega)
  generalize s5 : (d.d0.setWidth 32 &&& 0x3ffffff) + c4 * 5 = h0
  have t5 : h0.toNat = d.d0.toNat % 2 ^ 26 + 5 * c4.toNat := by
    rw [← s5, BitVec.toNat_add, low_toNat, times_five (by omega)]
    omega
  have r0 : (h0 &&& 0x3ffffff).toNat = h0.toNat % 2 ^ 26 := and_mask h0
  have r1 : ((d1.setWidth 32 &&& (0x3ffffff : BitVec 32)) + h0 >>> 26).toNat = d1.toNat % 2 ^ 26 + h0.toNat / 2 ^ 26 := by
    rw [add_carry (by rw [low_toNat]; omega), low_toNat]
  have r2 := low_toNat d2
  have r3 := low_toNat d3
  have r4 := low_toNat d4
  constructor
  · refine ⟨?_, ?_, ?_, ?_, ?_⟩ <;> dsimp only <;> omega
  · have kept : d.value = Limbs.value ⟨h0 &&& 0x3ffffff, (d1.setWidth 32 &&& (0x3ffffff : BitVec 32)) + h0 >>> 26,
        d2.setWidth 32 &&& 0x3ffffff, d3.setWidth 32 &&& 0x3ffffff, d4.setWidth 32 &&& 0x3ffffff⟩ + p * c4.toNat := by
      have modulus : p = 1361129467683753853853498429727072845819 := by decide
      rw [Products.value, Limbs.value, r0, r1, r2, r3, r4, modulus]
      omega
    rw [kept]
    exact (Nat.add_mul_mod_self_left _ p c4.toNat).symm

/-- A block is added and multiplied. -/
theorem block_spec (reduced : h.Reduced) (clamped : r.Below (2 ^ 26)) {high : BitVec 32}
    (bit : high.toNat = 0 ∨ high.toNat = 2 ^ 24) : (block r h high m).Reduced ∧
      (block r h high m).value ≡ (h.value + (valueOf 16 m + 2 ^ 104 * high.toNat)) * r.value [MOD p] := by
  obtain ⟨added, below⟩ := addBlock_spec (m := m) reduced bit
  obtain ⟨product, small⟩ := products_spec below clamped
  obtain ⟨reduced', same⟩ := partialMod_spec small
  refine ⟨reduced', ?_⟩
  rw [← Nat.add_assoc, ← added]
  exact same.trans product

end Blocks

section Finish

variable {h : Limbs}

theorem carry_spec (reduced : h.Reduced) : (carry h).Below (2 ^ 26) ∧ (carry h).value ≡ h.value [MOD p] := by
  obtain ⟨b0, b1, b2, b3, b4⟩ := reduced
  rw [carry]
  generalize s2 : h.l2 + h.l1 >>> 26 = h2
  have t2 : h2.toNat = h.l2.toNat + h.l1.toNat / 2 ^ 26 := by
    rw [← s2]
    exact add_carry (Nat.lt_trans b2 (by decide)) h.l1
  generalize s3 : h.l3 + h2 >>> 26 = h3
  have t3 : h3.toNat = h.l3.toNat + h2.toNat / 2 ^ 26 := by
    rw [← s3]
    exact add_carry (Nat.lt_trans b3 (by decide)) h2
  generalize s4 : h.l4 + h3 >>> 26 = h4
  have t4 : h4.toNat = h.l4.toNat + h3.toNat / 2 ^ 26 := by
    rw [← s4]
    exact add_carry (Nat.lt_trans b4 (by decide)) h3
  generalize s0 : h.l0 + h4 >>> 26 * 5 = h0
  have t0 : h0.toNat = h.l0.toNat + 5 * (h4.toNat / 2 ^ 26) := by
    have few := h4.isLt
    have five := times_five (x := h4 >>> 26) (by rw [shift_toNat]; omega)
    rw [← s0, BitVec.toNat_add, five, shift_toNat]
    omega
  have r0 := and_mask h0
  have r1 : ((h.l1 &&& (0x3ffffff : BitVec 32)) + h0 >>> 26).toNat = h.l1.toNat % 2 ^ 26 + h0.toNat / 2 ^ 26 := by
    rw [add_carry (by rw [and_mask]; omega), and_mask]
  have r2 := and_mask h2
  have r3 := and_mask h3
  have r4 := and_mask h4
  -- nothing comes round unless the second limb gave a carry, and then it is small
  have c1 : h.l1.toNat / 2 ^ 26 ≤ 1 := by omega
  have c2 : h2.toNat / 2 ^ 26 ≤ h.l1.toNat / 2 ^ 26 := by omega
  have c3 : h3.toNat / 2 ^ 26 ≤ h2.toNat / 2 ^ 26 := by omega
  have c4 : h4.toNat / 2 ^ 26 ≤ h3.toNat / 2 ^ 26 := by omega
  have c0 : h0.toNat / 2 ^ 26 ≤ h4.toNat / 2 ^ 26 := by omega
  constructor
  · refine ⟨?_, ?_, ?_, ?_, ?_⟩ <;> dsimp only <;> omega
  · have kept : h.value = Limbs.value ⟨h0 &&& 0x3ffffff, (h.l1 &&& (0x3ffffff : BitVec 32)) + h0 >>> 26,
        h2 &&& 0x3ffffff, h3 &&& 0x3ffffff, h4 &&& 0x3ffffff⟩ + p * (h4.toNat / 2 ^ 26) := by
      have modulus : p = 1361129467683753853853498429727072845819 := by decide
      rw [Limbs.value, Limbs.value, r0, r1, r2, r3, r4, modulus]
      omega
    rw [kept]
    exact (Nat.add_mul_mod_self_left _ p _).symm

theorem select (x g : BitVec 32) :
    x &&& ~~~(0 : BitVec 32) ||| g &&& 0 = x ∧ x &&& ~~~(~~~(0 : BitVec 32)) ||| g &&& ~~~(0 : BitVec 32) = g := by
  have ones : ~~~(0 : BitVec 32) = BitVec.allOnes 32 := rfl
  have zeros : ~~~(BitVec.allOnes 32) = 0 := rfl
  rw [ones, zeros]
  simp only [BitVec.and_allOnes, BitVec.and_zero, BitVec.or_zero, BitVec.zero_or, BitVec.ofNat_eq_ofNat, and_self]

/-- The full reduction, without a branch. -/
theorem reduce_spec (below : h.Below (2 ^ 26)) : (reduce h).value = h.value % p ∧ (reduce h).Below (2 ^ 26) := by
  obtain ⟨b0, b1, b2, b3, b4⟩ := below
  have modulus : p = 1361129467683753853853498429727072845819 := by decide
  rw [reduce]
  generalize s0 : h.l0 + 5 = g0
  have t0 : g0.toNat = h.l0.toNat + 5 := by
    rw [← s0, BitVec.toNat_add]
    exact Nat.mod_eq_of_lt (Nat.lt_trans (Nat.add_lt_add_right b0 5) (by decide))
  generalize s1 : h.l1 + g0 >>> 26 = g1
  have t1 : g1.toNat = h.l1.toNat + g0.toNat / 2 ^ 26 := by
    rw [← s1]
    exact add_carry (Nat.lt_trans b1 (by decide)) g0
  generalize s2 : h.l2 + g1 >>> 26 = g2
  have t2 : g2.toNat = h.l2.toNat + g1.toNat / 2 ^ 26 := by
    rw [← s2]
    exact add_carry (Nat.lt_trans b2 (by decide)) g1
  generalize s3 : h.l3 + g2 >>> 26 = g3
  have t3 : g3.toNat = h.l3.toNat + g2.toNat / 2 ^ 26 := by
    rw [← s3]
    exact add_carry (Nat.lt_trans b3 (by decide)) g2
  generalize s4 : h.l4 + g3 >>> 26 = g4
  have t4 : g4.toNat = h.l4.toNat + g3.toNat / 2 ^ 26 := by
    rw [← s4]
    exact add_carry (Nat.lt_trans b4 (by decide)) g3
  have top : (g4 - 0x4000000).toNat = (2 ^ 32 - 2 ^ 26 + g4.toNat) % 2 ^ 32 := by
    rw [BitVec.toNat_sub]
    rfl
  have sign : ((g4 - 0x4000000) >>> 31).toNat = (g4 - 0x4000000).toNat / 2 ^ 31 := shift_toNat _ 31
  have m0 := and_mask g0
  have m1 := and_mask g1
  have m2 := and_mask g2
  have m3 := and_mask g3
  by_cases less : g4.toNat < 2 ^ 26
  · -- h is below the modulus, and what is subtracted from it is negative
    have mask : (g4 - 0x4000000) >>> 31 - 1 = 0 := by
      have one : (g4 - 0x4000000) >>> 31 = 1 := by
        apply BitVec.eq_of_toNat_eq
        rw [sign, top]
        show _ = 1
        omega
      rw [one]
      rfl
    rw [mask]
    simp only [(select _ _).1]
    refine ⟨?_, b0, b1, b2, b3, b4⟩
    show h.value = h.value % p
    rw [Nat.mod_eq_of_lt]
    rw [Limbs.value, modulus]
    omega
  · have mask : (g4 - 0x4000000) >>> 31 - 1 = ~~~(0 : BitVec 32) := by
      have none : (g4 - 0x4000000) >>> 31 = 0 := by
        apply BitVec.eq_of_toNat_eq
        rw [sign, top]
        show _ = 0
        omega
      rw [none]
      rfl
    rw [mask]
    simp only [(select _ _).2]
    have last : (g4 - 0x4000000).toNat = g4.toNat - 2 ^ 26 := by
      rw [top]
      omega
    constructor
    · rw [Limbs.value, Limbs.value, m0, m1, m2, m3, last, modulus]
      omega
    · refine ⟨?_, ?_, ?_, ?_, ?_⟩ <;> dsimp only <;> omega

/-- Two limbs that share a word. -/
theorem word_toNat {x y : BitVec 32} {k : Nat} (small : k ≤ 32) (low : x.toNat < 2 ^ k) :
    (x ||| y <<< k).toNat = x.toNat + y.toNat * 2 ^ k % 2 ^ 32 := by
  rw [or_toNat low (shiftLeft_dvd y small), BitVec.toNat_shiftLeft, Nat.shiftLeft_eq]

theorem words_spec (below : h.Below (2 ^ 26)) :
    (words h 0).toNat = h.value % 2 ^ 32 ∧ (words h 1).toNat = h.value / 2 ^ 32 % 2 ^ 32 ∧
      (words h 2).toNat = h.value / 2 ^ 64 % 2 ^ 32 ∧ (words h 3).toNat = h.value / 2 ^ 96 % 2 ^ 32 := by
  obtain ⟨b0, b1, b2, b3, b4⟩ := below
  refine ⟨?_, ?_, ?_, ?_⟩
  · rw [words, word_toNat (by decide) b0, Limbs.value]
    omega
  · rw [words, word_toNat (by decide) (by rw [shift_toNat]; omega), shift_toNat, Limbs.value]
    omega
  · rw [words, word_toNat (by decide) (by rw [shift_toNat]; omega), shift_toNat, Limbs.value]
    omega
  · rw [words, word_toNat (by decide) (by rw [shift_toNat]; omega), shift_toNat, Limbs.value]
    · omega
    all_goals omega

/-- A sum of numbers of four words, with the carry in the upper half of each word's sum. -/
theorem padded_spec (a b : Nat → BitVec 32) :
    ((padded a b 0).setWidth 32).toNat + 2 ^ 32 * ((padded a b 1).setWidth 32).toNat +
      2 ^ 64 * ((padded a b 2).setWidth 32).toNat + 2 ^ 96 * ((padded a b 3).setWidth 32).toNat =
    ((a 0).toNat + 2 ^ 32 * (a 1).toNat + 2 ^ 64 * (a 2).toNat + 2 ^ 96 * (a 3).toNat +
      ((b 0).toNat + 2 ^ 32 * (b 1).toNat + 2 ^ 64 * (b 2).toNat + 2 ^ 96 * (b 3).toNat)) % 2 ^ 128 := by
  have next (j : Nat) (small : (padded a b j).toNat < 2 ^ 33) :
      (padded a b (j + 1)).toNat = (a (j + 1)).toNat + (b (j + 1)).toNat + (padded a b j).toNat / 2 ^ 32 := by
    have left := (a (j + 1)).isLt
    have right := (b (j + 1)).isLt
    rw [padded, BitVec.toNat_add, BitVec.toNat_add, widen_toNat, widen_toNat, BitVec.toNat_ushiftRight,
      Nat.shiftRight_eq_div_pow]
    omega
  have low (j : Nat) : ((padded a b j).setWidth 32).toNat = (padded a b j).toNat % 2 ^ 32 := BitVec.toNat_setWidth _ _
  have a0 := (a 0).isLt
  have a1 := (a 1).isLt
  have a2 := (a 2).isLt
  have a3 := (a 3).isLt
  have b0 := (b 0).isLt
  have b1 := (b 1).isLt
  have b2 := (b 2).isLt
  have b3 := (b 3).isLt
  have f0 : (padded a b 0).toNat = (a 0).toNat + (b 0).toNat := by
    rw [padded, BitVec.toNat_add, widen_toNat, widen_toNat]
    omega
  have f1 : (padded a b 1).toNat = (a 1).toNat + (b 1).toNat + (padded a b 0).toNat / 2 ^ 32 := next 0 (by omega)
  have f2 : (padded a b 2).toNat = (a 2).toNat + (b 2).toNat + (padded a b 1).toNat / 2 ^ 32 := next 1 (by omega)
  have f3 : (padded a b 3).toNat = (a 3).toNat + (b 3).toNat + (padded a b 2).toNat / 2 ^ 32 := next 2 (by omega)
  rw [low, low, low, low]
  omega

theorem u32to8_eq (v : BitVec 32) : u32to8 v = bytesOf 4 v.toNat := by
  have low (k : Nat) : (v >>> k).setWidth 8 = BitVec.ofNat 8 (v.toNat / 2 ^ k) := by
    apply BitVec.eq_of_toNat_eq
    rw [BitVec.toNat_setWidth, BitVec.toNat_ushiftRight, BitVec.toNat_ofNat, Nat.shiftRight_eq_div_pow]
  have first : v.setWidth 8 = BitVec.ofNat 8 (v.toNat / 2 ^ 0) := low 0
  rw [u32to8, low, low, low, first]
  rfl

theorem bytes_of_words {w0 w1 w2 w3 : Nat} (s0 : w0 < 2 ^ 32) (s1 : w1 < 2 ^ 32) (s2 : w2 < 2 ^ 32) :
    bytesOf 4 w0 ++ bytesOf 4 w1 ++ bytesOf 4 w2 ++ bytesOf 4 w3 =
      bytesOf 16 (w0 + 2 ^ 32 * w1 + 2 ^ 64 * w2 + 2 ^ 96 * w3) := by
  generalize whole : w0 + 2 ^ 32 * w1 + 2 ^ 64 * w2 + 2 ^ 96 * w3 = w
  have split : bytesOf 16 w = bytesOf 4 w ++ bytesOf 4 (w / 256 ^ 4) ++ bytesOf 4 (w / 256 ^ 8) ++
      bytesOf 4 (w / 256 ^ 12) := by
    rw [← bytesOf_add 4 4, ← bytesOf_add 8 4, ← bytesOf_add 12 4]
  have same (x y : Nat) (equal : x % 2 ^ 32 = y % 2 ^ 32) : bytesOf 4 x = bytesOf 4 y := by
    rw [← bytesOf_mod 4 x, ← bytesOf_mod 4 y]
    exact congrArg (bytesOf 4) equal
  rw [split, same w w0 (by omega), same (w / 256 ^ 4) w1 (by omega), same (w / 256 ^ 8) w2 (by omega),
    same (w / 256 ^ 12) w3 (by omega)]

end Finish

section Spec

/-- The clamped key and the pad of a key of 32 bytes. -/
def keyOf (key : Nat → Byte) : Nat := valueOf 16 key &&& 0x0ffffffc0ffffffc0ffffffc0fffffff

def padOf (key : Nat → Byte) : Nat := valueOf 16 fun i => key (16 + i)

/-- A block of the message as a number, with a one behind its last byte. -/
def coefficient (message : List Byte) (i : Nat) : Nat :=
  let size := min 16 (message.length - 16 * i)
  (valueOf size fun j => message.getD (16 * i + j) 0) + 256 ^ size

/-- The polynomial of the message, without a constant term. -/
def polynomial (r : Nat) (message : List Byte) : Nat :=
  let count := (message.length + 15) / 16
  ∑ i ∈ Finset.range count, coefficient message i * r ^ (count - i)

/-- The tag as Poly1305 is defined. -/
def tag (key message : List Byte) : List Byte :=
  bytesOf 16 ((polynomial (keyOf fun i => key.getD i 0) message % p + padOf fun i => key.getD i 0) % 2 ^ 128)

/-- The polynomial of so many coefficients, by Horner's rule. -/
def horner (r : Nat) (c : Nat → Nat) : Nat → Nat
  | 0 => 0
  | n + 1 => (horner r c n + c n) * r

theorem horner_eq (r : Nat) (c : Nat → Nat) (n : Nat) :
    horner r c n = ∑ i ∈ Finset.range n, c i * r ^ (n - i) := by
  induction n with
  | zero => rfl
  | succ n ih =>
      rw [horner, ih, Nat.add_mul, Finset.sum_mul, Finset.sum_range_succ, Nat.add_sub_cancel_left, Nat.pow_one]
      congr 1
      apply Finset.sum_congr rfl
      intro i below
      have less := Finset.mem_range.mp below
      have power : n + 1 - i = n - i + 1 := by omega
      rw [power, Nat.pow_succ, Nat.mul_assoc]

/-- A mask on the digits of a number. -/
theorem and_digits {x y a b k : Nat} (low : x < 2 ^ k) (low' : a < 2 ^ k) :
    (2 ^ k * y + x) &&& (2 ^ k * b + a) = 2 ^ k * (y &&& b) + (x &&& a) := by
  apply Nat.eq_of_testBit_eq
  intro j
  have both : x &&& a < 2 ^ k := Nat.and_lt_two_pow x low'
  rw [Nat.testBit_and, Nat.testBit_two_pow_mul_add y low, Nat.testBit_two_pow_mul_add b low',
    Nat.testBit_two_pow_mul_add _ both]
  split <;> rw [Nat.testBit_and]

theorem and_mod {x a k : Nat} (low : a < 2 ^ k) : x &&& a = x % 2 ^ k &&& a := by
  have digits : 2 ^ k * (x / 2 ^ k) + x % 2 ^ k = x := Nat.div_add_mod x (2 ^ k)
  have split := and_digits (y := x / 2 ^ k) (b := 0) (Nat.mod_lt x (Nat.two_pow_pos k)) low
  rw [Nat.mul_zero, Nat.zero_add, digits, Nat.and_zero, Nat.mul_zero, Nat.zero_add] at split
  exact split

/-- The masks of the limbs are the clamping of the key. -/
theorem init_spec (key : Nat → Byte) :
    (poly1305Init key).r.value = keyOf key ∧ (poly1305Init key).r.Below (2 ^ 26) := by
  have whole := valueOf_lt 16 key
  have limb {x m : BitVec 32} {w : Nat} (small : m.toNat < 2 ^ 26) (same : x.toNat % 2 ^ 26 = w) :
      (x &&& m).toNat = w &&& m.toNat := by
    rw [BitVec.toNat_and, and_mod small, same]
  have r0 : (poly1305Init key).r.l0.toNat = valueOf 16 key % 2 ^ 26 &&& 0x3ffffff :=
    limb (by decide) (first_window key)
  have r1 : (poly1305Init key).r.l1.toNat = valueOf 16 key / 2 ^ 26 % 2 ^ 26 &&& 0x3ffff03 :=
    limb (by decide) (by rw [shift_toNat]; exact limb_window key 3 9 rfl (by decide))
  have r2 : (poly1305Init key).r.l2.toNat = valueOf 16 key / 2 ^ 52 % 2 ^ 26 &&& 0x3ffc0ff :=
    limb (by decide) (by rw [shift_toNat]; exact limb_window key 6 6 rfl (by decide))
  have r3 : (poly1305Init key).r.l3.toNat = valueOf 16 key / 2 ^ 78 % 2 ^ 26 &&& 0x3f03fff :=
    limb (by decide) (by rw [shift_toNat]; exact limb_window key 9 3 rfl (by decide))
  have r4 : (poly1305Init key).r.l4.toNat = valueOf 16 key / 2 ^ 104 &&& 0x00fffff :=
    limb (by decide) (by
      rw [shift_toNat, last_window]
      exact Nat.mod_eq_of_lt (Nat.div_lt_of_lt_mul (Nat.lt_of_lt_of_le (valueOf_lt 16 key) (by decide))))
  have below {w m : Nat} (small : m < 2 ^ 26) : w &&& m < 2 ^ 26 := Nat.and_lt_two_pow w small
  constructor
  · have digits : valueOf 16 key = 2 ^ 26 * (2 ^ 26 * (2 ^ 26 * (2 ^ 26 * (valueOf 16 key / 2 ^ 104) +
        valueOf 16 key / 2 ^ 78 % 2 ^ 26) + valueOf 16 key / 2 ^ 52 % 2 ^ 26) + valueOf 16 key / 2 ^ 26 % 2 ^ 26) +
        valueOf 16 key % 2 ^ 26 := by omega
    have mask : 0x0ffffffc0ffffffc0ffffffc0fffffff =
        2 ^ 26 * (2 ^ 26 * (2 ^ 26 * (2 ^ 26 * 0x00fffff + 0x3f03fff) + 0x3ffc0ff) + 0x3ffff03) + 0x3ffffff := by decide
    have mod (x : Nat) : x % 2 ^ 26 < 2 ^ 26 := Nat.mod_lt x (by decide)
    rw [Limbs.value, r0, r1, r2, r3, r4, keyOf, mask]
    conv_rhs => rw [digits]
    rw [and_digits (mod _) (by decide), and_digits (mod _) (by decide), and_digits (mod _) (by decide),
      and_digits (mod _) (by decide)]
    omega
  · refine ⟨?_, ?_, ?_, ?_, ?_⟩
    · rw [r0]
      exact below (by decide)
    · rw [r1]
      exact below (by decide)
    · rw [r2]
      exact below (by decide)
    · rw [r3]
      exact below (by decide)
    · rw [r4]
      exact below (by decide)

/-- The words of the pad. -/
theorem pad_spec (key : Nat → Byte) :
    ((poly1305Init key).pad 0).toNat + 2 ^ 32 * ((poly1305Init key).pad 1).toNat +
      2 ^ 64 * ((poly1305Init key).pad 2).toNat + 2 ^ 96 * ((poly1305Init key).pad 3).toNat = padOf key := by
  have word (j rest : Nat) (sum : 4 * j + 4 + rest = 16) :
      ((poly1305Init key).pad j).toNat = padOf key / 256 ^ (4 * j) % 2 ^ 32 := by
    have window := window_toNat (fun i => key (16 + i)) (4 * j) rest sum
    simp only [← Nat.add_assoc] at window
    exact window
  have whole := valueOf_lt 16 fun i => key (16 + i)
  have first : padOf key / 256 ^ (4 * 0) = padOf key := Nat.div_one _
  rw [word 0 12 rfl, word 1 8 rfl, word 2 4 rfl, word 3 0 rfl, first]
  exact (words_of (padOf key)).trans (Nat.mod_eq_of_lt whole)

end Spec

section Streams

variable {key : Nat → Byte} {text more : List Byte} {st : State} {r h : Limbs} {m : Nat → Byte}

theorem coefficient_full {i : Nat} (full : 16 * i + 16 ≤ text.length) :
    coefficient text i = (valueOf 16 fun j => text.getD (16 * i + j) 0) + 2 ^ 128 := by
  have size : min 16 (text.length - 16 * i) = 16 := by omega
  have one : 256 ^ 16 = 2 ^ 128 := by decide
  rw [coefficient, size, one]

/-- Whole blocks stay what they are when more follows. -/
theorem coefficient_append {i : Nat} (full : 16 * i + 16 ≤ text.length) :
    coefficient (text ++ more) i = coefficient text i := by
  have longer : 16 * i + 16 ≤ (text ++ more).length := by
    rw [List.length_append]
    omega
  have same : (valueOf 16 fun j => (text ++ more).getD (16 * i + j) 0) = valueOf 16 fun j => text.getD (16 * i + j) 0 :=
    valueOf_congr fun j below => List.getD_append _ _ _ _ (by omega)
  rw [coefficient_full longer, coefficient_full full, same]

theorem horner_congr {R n : Nat} {c d : Nat → Nat} (same : ∀ i < n, c i = d i) : horner R c n = horner R d n := by
  induction n with
  | zero => rfl
  | succ n ih => rw [horner, horner, ih fun i below => same i (by omega), same n (Nat.lt_succ_self n)]

/-- The loop goes on with Horner's rule. -/
theorem blocks_spec {c : Nat → Nat} {k n : Nat} (clamped : r.Below (2 ^ 26)) (reduced : h.Reduced)
    (start : h.value ≡ horner r.value c k [MOD p])
    (same : ∀ i < n, (valueOf 16 fun j => m (16 * i + j)) + 2 ^ 128 = c (k + i)) :
    (blocks r hibit n h m).Reduced ∧ (blocks r hibit n h m).value ≡ horner r.value c (k + n) [MOD p] := by
  induction n generalizing h m k with
  | zero => exact ⟨reduced, start⟩
  | succ n ih =>
      have bit : hibit.toNat = 2 ^ 24 := rfl
      obtain ⟨reduced', value⟩ := block_spec (m := m) reduced clamped (Or.inr bit)
      have first := same 0 (Nat.succ_pos n)
      simp only [Nat.mul_zero, Nat.zero_add, Nat.add_zero] at first
      have next : (block r h hibit m).value ≡ horner r.value c (k + 1) [MOD p] := by
        rw [horner, ← first]
        apply value.trans
        rw [bit]
        exact (start.add_right _).mul_right _
      have position : k + (n + 1) = k + 1 + n := by omega
      rw [blocks, position]
      apply ih reduced' next
      intro i below
      have later := same (i + 1) (by omega)
      have shifted : (fun j => m (16 + (16 * i + j))) = fun j => m (16 * (i + 1) + j) := by
        funext j
        rw [Nat.mul_succ, Nat.add_left_comm, Nat.add_assoc, Nat.add_left_comm]
      rw [show k + 1 + i = k + (i + 1) by omega, ← later, shifted]

/-- What the state has of the text so far: the polynomial of its whole blocks, and the bytes behind them. -/
structure Absorbed (key : Nat → Byte) (text : List Byte) (st : State) : Prop where
  r : st.r = (poly1305Init key).r
  pad : st.pad = (poly1305Init key).pad
  reduced : st.h.Reduced
  hash : st.h.value ≡ horner (keyOf key) (coefficient text) (text.length / 16) [MOD p]
  leftover : st.leftover = text.length % 16
  buffer : ∀ i < st.leftover, st.buffer i = text.getD (16 * (text.length / 16) + i) 0

theorem absorbed_init (key : Nat → Byte) : Absorbed key [] (poly1305Init key) where
  r := rfl
  pad := rfl
  reduced := by
    have zero : (0 : BitVec 32).toNat < 2 ^ 26 := by decide
    exact ⟨zero, Nat.lt_of_lt_of_le zero (by decide), zero, zero, zero⟩
  hash := rfl
  leftover := rfl
  buffer := fun i below => absurd below (Nat.not_lt_zero i)

theorem absorbed_takeBlocks (absorbed : Absorbed key text st) (whole : text.length % 16 = 0) :
    Absorbed key (text ++ more) (takeBlocks st more) := by
  obtain ⟨same, pad, reduced, hash, leftover, -⟩ := absorbed
  have clamped : st.r.Below (2 ^ 26) := by
    rw [same]
    exact (init_spec key).2
  have value : st.r.value = keyOf key := by
    rw [same]
    exact (init_spec key).1
  have length : (text ++ more).length = text.length + more.length := List.length_append
  have count : (text ++ more).length / 16 = text.length / 16 + more.length / 16 := by omega
  have none : st.leftover = 0 := by omega
  have start : st.h.value ≡ horner st.r.value (coefficient (text ++ more)) (text.length / 16) [MOD p] := by
    rw [value, horner_congr fun i below => coefficient_append (by omega)]
    exact hash
  have turns := blocks_spec (m := fun i => more.getD i 0) (n := more.length / 16) clamped reduced start (by
    intro i below
    have same : (valueOf 16 fun j => more.getD (16 * i + j) 0) =
        valueOf 16 fun j => (text ++ more).getD (16 * (text.length / 16 + i) + j) 0 := by
      apply valueOf_congr
      intro j small
      have position : 16 * (text.length / 16 + i) + j - text.length = 16 * i + j := by omega
      rw [List.getD_append_right _ _ _ _ (by omega), position]
    rw [coefficient_full (by omega), same])
  rw [value] at turns
  have rest : (more.drop (16 * (more.length / 16))).length = more.length % 16 := by
    rw [List.length_drop]
    omega
  rw [takeBlocks]
  refine ⟨same, pad, turns.1, ?_, ?_, ?_⟩
  · rw [count]
    exact turns.2
  · dsimp only
    rw [none, rest]
    omega
  · dsimp only
    rw [none, rest]
    intro i below
    have inside : (0 : Nat) ≤ i ∧ i < 0 + more.length % 16 := by omega
    rw [written, if_pos inside, List.getD_append_right _ _ _ _ (by omega), List.getD_eq_getElem?_getD,
      List.getD_eq_getElem?_getD, List.getElem?_drop]
    congr 2
    omega

/-- A call of `poly1305_update` goes on with the text. -/
theorem absorbed_update (absorbed : Absorbed key text st) : Absorbed key (text ++ more) (poly1305Update st more) := by
  rw [poly1305Update]
  by_cases none : st.leftover ≠ 0
  · rw [if_pos none]
    dsimp only
    obtain ⟨same, pad, reduced, hash, leftover, buffer⟩ := absorbed
    have length : (text ++ more).length = text.length + more.length := List.length_append
    -- the buffer with what is put behind the bytes left over
    have filled (n : Nat) (small : n ≤ more.length) (i : Nat) (below : i < st.leftover + n) :
        written st.leftover (fun i => more.getD i 0) n st.buffer i =
          (text ++ more.take n).getD (16 * (text.length / 16) + i) 0 := by
      by_cases early : i < st.leftover
      · rw [written_outside (Or.inl early), buffer i early, List.getD_append _ _ _ _ (by omega)]
      · have inside : st.leftover ≤ i ∧ i < st.leftover + n := by omega
        rw [written, if_pos inside, List.getD_append_right _ _ _ _ (by omega), List.getD_eq_getElem?_getD,
          List.getD_eq_getElem?_getD, List.getElem?_take_of_lt (by omega)]
        congr 2
        omega
    by_cases short : st.leftover + min (16 - st.leftover) more.length < 16
    · have all : min (16 - st.leftover) more.length = more.length := by omega
      rw [all] at short ⊢
      rw [if_pos short]
      have count : (text ++ more).length / 16 = text.length / 16 := by omega
      refine ⟨same, pad, reduced, ?_, ?_, ?_⟩
      · rw [count, horner_congr fun i below => coefficient_append (by omega)]
        exact hash
      · dsimp only
        omega
      · dsimp only
        intro i below
        have byte := filled more.length (Nat.le_refl _) i below
        rw [List.take_length] at byte
        rw [byte, count]
    · rw [if_neg short]
      have want : min (16 - st.leftover) more.length = 16 - st.leftover := by omega
      rw [want]
      have taken : (text ++ more.take (16 - st.leftover)).length = 16 * (text.length / 16) + 16 := by
        rw [List.length_append, List.length_take]
        omega
      have clamped : st.r.Below (2 ^ 26) := by
        rw [same]
        exact (init_spec key).2
      have value : st.r.value = keyOf key := by
        rw [same]
        exact (init_spec key).1
      have start : st.h.value ≡
          horner st.r.value (coefficient (text ++ more.take (16 - st.leftover))) (text.length / 16) [MOD p] := by
        rw [value, horner_congr fun i below => coefficient_append (by omega)]
        exact hash
      have turn := blocks_spec (n := 1) (m := written st.leftover (fun i => more.getD i 0) (16 - st.leftover) st.buffer)
        clamped reduced start (by
          intro i below
          have bytes : (valueOf 16 fun j => written st.leftover (fun i => more.getD i 0) (16 - st.leftover) st.buffer j) =
              valueOf 16 fun j => (text ++ more.take (16 - st.leftover)).getD (16 * (text.length / 16) + j) 0 :=
            valueOf_congr fun j small => filled (16 - st.leftover) (by omega) j (by omega)
          rw [show i = 0 by omega, Nat.add_zero, coefficient_full (by omega)]
          simp only [Nat.mul_zero, Nat.zero_add]
          rw [bytes])
      rw [value] at turn
      have count : (text ++ more.take (16 - st.leftover)).length / 16 = text.length / 16 + 1 := by omega
      have block : Absorbed key (text ++ more.take (16 - st.leftover))
          { st with h := blocks st.r hibit 1 st.h
                      (written st.leftover (fun i => more.getD i 0) (16 - st.leftover) st.buffer),
                    buffer := written st.leftover (fun i => more.getD i 0) (16 - st.leftover) st.buffer,
                    leftover := 0 } := by
        refine ⟨same, pad, turn.1, ?_, ?_, fun i below => absurd below (Nat.not_lt_zero i)⟩
        · rw [count]
          exact turn.2
        · dsimp only
          omega
      have both : text ++ more = text ++ more.take (16 - st.leftover) ++ more.drop (16 - st.leftover) := by
        rw [List.append_assoc, List.take_append_drop]
      rw [both]
      exact absorbed_takeBlocks block (by omega)
  · rw [if_neg none]
    have leftover := absorbed.leftover
    exact absorbed_takeBlocks absorbed (by omega)

/-- The partial block of `poly1305_finish`, with its mark, is the last coefficient. -/
theorem marked_spec (buffer : Memory) (partly : 0 < text.length % 16)
    (same : ∀ i < text.length % 16, buffer i = text.getD (16 * (text.length / 16) + i) 0) :
    valueOf 16 (written (text.length % 16 + 1) (fun _ => 0) (16 - (text.length % 16 + 1))
      (Function.update buffer (text.length % 16) 1)) = coefficient text (text.length / 16) := by
  generalize left : text.length % 16 = n at *
  have size : min 16 (text.length - 16 * (text.length / 16)) = n := by omega
  have whole : n + 1 + (16 - (n + 1)) = 16 := by omega
  have mark : written (n + 1) (fun _ => 0) (16 - (n + 1)) (Function.update buffer n 1) n = 1 := by
    rw [written_outside (Or.inl (Nat.lt_succ_self n)), Function.update_self]
  have zeros (i : Nat) (below : i < 16 - (n + 1)) :
      written (n + 1) (fun _ => 0) (16 - (n + 1)) (Function.update buffer n 1) (n + 1 + i) = 0 := by
    have inside : n + 1 ≤ n + 1 + i ∧ n + 1 + i < n + 1 + (16 - (n + 1)) := by omega
    rw [written, if_pos inside]
  have marked := valueOf_marked n (16 - (n + 1)) mark zeros
  rw [whole] at marked
  have bytes : valueOf n (written (n + 1) (fun _ => 0) (16 - (n + 1)) (Function.update buffer n 1)) =
      valueOf n fun j => text.getD (16 * (text.length / 16) + j) 0 := by
    apply valueOf_congr
    intro j below
    rw [written_outside (Or.inl (by omega)), Function.update_of_ne (by omega), same j below]
  rw [marked, bytes, coefficient, size]

/-- What is left in `poly1305_finish` to be carried, reduced and padded. -/
def finished (st : State) : Limbs :=
  if st.leftover ≠ 0 then
    block st.r st.h 0 (written (st.leftover + 1) (fun _ => 0) (16 - (st.leftover + 1))
      (Function.update st.buffer st.leftover 1))
  else st.h

theorem finished_spec (absorbed : Absorbed key text st) :
    (finished st).Reduced ∧ (finished st).value ≡ polynomial (keyOf key) text [MOD p] := by
  obtain ⟨same, pad, reduced, hash, leftover, buffer⟩ := absorbed
  rw [finished, polynomial, ← horner_eq]
  by_cases some : st.leftover ≠ 0
  · have clamped : st.r.Below (2 ^ 26) := by
      rw [same]
      exact (init_spec key).2
    have value : st.r.value = keyOf key := by
      rw [same]
      exact (init_spec key).1
    have count : (text.length + 15) / 16 = text.length / 16 + 1 := by omega
    obtain ⟨reduced', last⟩ := @block_spec st.h st.r
      (written (st.leftover + 1) (fun _ => 0) (16 - (st.leftover + 1)) (Function.update st.buffer st.leftover 1))
      reduced clamped 0 (Or.inl rfl)
    rw [if_pos some, count, horner]
    refine ⟨reduced', last.trans ?_⟩
    rw [leftover] at buffer ⊢
    have none : (0 : BitVec 32).toNat = 0 := rfl
    rw [marked_spec st.buffer (by omega) buffer, value, none, Nat.mul_zero, Nat.add_zero]
    exact (hash.add_right _).mul_right _
  · have count : (text.length + 15) / 16 = text.length / 16 := by omega
    rw [if_neg some, count]
    exact ⟨reduced, hash⟩

theorem finish_tag (key : List Byte) (absorbed : Absorbed (fun i => key.getD i 0) text st) :
    poly1305Finish st = tag key text := by
  obtain ⟨reduced, value⟩ := finished_spec absorbed
  obtain ⟨below, carried⟩ := carry_spec reduced
  obtain ⟨least, small⟩ := reduce_spec below
  obtain ⟨w0, w1, w2, w3⟩ := words_spec small
  have total : (reduce (carry (finished st))).value =
      polynomial (keyOf fun i => key.getD i 0) text % p := least.trans (carried.trans value)
  have sum := padded_spec (words (reduce (carry (finished st)))) (poly1305Init fun i => key.getD i 0).pad
  rw [pad_spec, w0, w1, w2, w3, total] at sum
  have word (j : Nat) :=
    ((padded (words (reduce (carry (finished st)))) (poly1305Init fun i => key.getD i 0).pad j).setWidth 32).isLt
  calc
    poly1305Finish st
      = u32to8 ((padded (words (reduce (carry (finished st)))) st.pad 0).setWidth 32) ++
          u32to8 ((padded (words (reduce (carry (finished st)))) st.pad 1).setWidth 32) ++
          u32to8 ((padded (words (reduce (carry (finished st)))) st.pad 2).setWidth 32) ++
          u32to8 ((padded (words (reduce (carry (finished st)))) st.pad 3).setWidth 32) := rfl
    _ = tag key text := by
      rw [absorbed.pad, u32to8_eq, u32to8_eq, u32to8_eq, u32to8_eq, bytes_of_words (word 0) (word 1) (word 2), sum, tag]
      generalize polynomial (keyOf fun i => key.getD i 0) text % p = v
      generalize (padOf fun i => key.getD i 0) = w
      rw [words_of, Nat.mod_add_mod]

/-- The tag of a message is the same however it is cut into calls of `poly1305_update`. -/
theorem updates_tag (key : List Byte) (pieces : List (List Byte)) :
    poly1305Finish (pieces.foldl poly1305Update (poly1305Init fun i => key.getD i 0)) = tag key pieces.flatten := by
  have absorbed (text : List Byte) (st : State) (before : Absorbed (fun i => key.getD i 0) text st) :
      Absorbed (fun i => key.getD i 0) (text ++ pieces.flatten) (pieces.foldl poly1305Update st) := by
    induction pieces generalizing text st with
    | nil =>
        rw [List.flatten_nil, List.append_nil]
        exact before
    | cons piece pieces ih =>
        rw [List.flatten_cons, ← List.append_assoc]
        exact ih _ _ (absorbed_update before)
  exact finish_tag key (absorbed [] _ (absorbed_init _))

end Streams

end ZeroTierNode.Poly1305
