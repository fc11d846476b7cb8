import ZeroTierNode.Library.Bytes

/-!
Hexadecimal text: fixed-width lower-case digits, and the way the C library's
`strtoull` and `strtoll` read them with base 16.
-/

namespace ZeroTierNode.Library.Hex
open Bytes

/-- The character of a digit below 16. -/
def digit (value : Nat) : Byte :=
  if value < 10 then BitVec.ofNat 8 (48 + value) else BitVec.ofNat 8 (87 + value)

def digitValue (c : Byte) : Option Nat :=
  if 48 ≤ c.toNat ∧ c.toNat ≤ 57 then some (c.toNat - 48)
  else if 97 ≤ c.toNat ∧ c.toNat ≤ 102 then some (c.toNat - 87)
  else if 65 ≤ c.toNat ∧ c.toNat ≤ 70 then some (c.toNat - 55)
  else none

/-- The `count` low-order digits of `value`, most significant first. -/
def digits : Nat → Nat → List Byte
  | 0, _ => []
  | count + 1, value => digit (value / 16 ^ count % 16) :: digits count value

/-- The number written by the digits up to the first other character. -/
def readDigits : Nat → List Byte → Nat
  | value, [] => value
  | value, c :: rest =>
      match digitValue c with
      | some d => readDigits (value * 16 + d) rest
      | none => value

def isSpace (c : Byte) : Bool := (9 ≤ c.toNat ∧ c.toNat ≤ 13) ∨ c.toNat = 32

/-- An optional sign: whether it is a minus, and the rest. -/
def sign : List Byte → Bool × List Byte
  | [] => (false, [])
  | c :: rest => if c = 0x2d then (true, rest) else if c = 0x2b then (false, rest) else (false, c :: rest)

/-- An optional `0x` that a digit follows is skipped. -/
def skipRadix : List Byte → List Byte
  | z :: x :: c :: rest =>
      if z = 0x30 ∧ (x = 0x78 ∨ x = 0x58) ∧ (digitValue c).isSome then c :: rest else z :: x :: c :: rest
  | s => s

/-- Sign and magnitude of the number at the start of a string. -/
def scan (s : List Byte) : Bool × Nat :=
  let (negative, rest) := sign (s.dropWhile isSpace)
  (negative, readDigits 0 (skipRadix rest))

def strtoull (s : List Byte) : BitVec 64 :=
  let (negative, magnitude) := scan s
  if 2 ^ 64 ≤ magnitude then BitVec.allOnes 64
  else if negative then -(BitVec.ofNat 64 magnitude) else BitVec.ofNat 64 magnitude

def strtoll (s : List Byte) : BitVec 64 :=
  let (negative, magnitude) := scan s
  if negative then if 2 ^ 63 ≤ magnitude then BitVec.intMin 64 else -(BitVec.ofNat 64 magnitude)
  else if 2 ^ 63 ≤ magnitude then BitVec.intMax 64 else BitVec.ofNat 64 magnitude

theorem digitValue_digit {value : Nat} (small : value < 16) : digitValue (digit value) = some value := by
  have all : ∀ value : Fin 16, digitValue (digit value) = some value.val := by decide
  exact all ⟨value, small⟩

/-- A digit is none of the characters that may stand before a number. -/
theorem plain_of_digitValue {c : Byte} {d : Nat} (read : digitValue c = some d) :
    isSpace c = false ∧ c ≠ 0x2d ∧ c ≠ 0x2b ∧ c ≠ 0x78 ∧ c ≠ 0x58 := by
  have all : ∀ c : Byte, (digitValue c).isSome →
      isSpace c = false ∧ c ≠ 0x2d ∧ c ≠ 0x2b ∧ c ≠ 0x78 ∧ c ≠ 0x58 := by decide
  apply all c
  rw [read, Option.isSome_some]

@[simp] theorem digits_length (count value : Nat) : (digits count value).length = count := by
  induction count with
  | zero => rfl
  | succ count ih => rw [digits, List.length_cons, ih]

theorem mem_digits {count value : Nat} {c : Byte} (found : c ∈ digits count value) :
    ∃ d, digitValue c = some d := by
  induction count with
  | zero => cases found
  | succ count ih =>
      rcases List.mem_cons.mp found with same | later
      · rw [same]
        exact ⟨_, digitValue_digit (Nat.mod_lt _ (by decide))⟩
      · exact ih later

theorem readDigits_digits (count value start : Nat) :
    readDigits start (digits count value) = start * 16 ^ count + value % 16 ^ count := by
  induction count generalizing start with
  | zero => simp [digits, readDigits, Nat.mod_one]
  | succ count ih =>
      simp only [digits, readDigits, digitValue_digit (Nat.mod_lt _ (by decide : 0 < 16))]
      rw [ih, Nat.pow_succ 16 count, Nat.mod_mul, Nat.add_mul]
      ring

/-- Enough digits tell numbers apart. -/
theorem digits_inj {count first second : Nat} (one : first < 16 ^ count) (other : second < 16 ^ count) :
    digits count first = digits count second ↔ first = second := by
  constructor
  · intro same
    have reading := congrArg (readDigits 0) same
    rwa [readDigits_digits, readDigits_digits, Nat.zero_mul, Nat.zero_add, Nat.zero_add,
      Nat.mod_eq_of_lt one, Nat.mod_eq_of_lt other] at reading
  · intro same
    rw [same]

/-- Digits are read as they stand: no character of theirs is taken for a sign or a radix. -/
theorem scan_digits (count value : Nat) : scan (digits count value) = (false, value % 16 ^ count) := by
  have plain : ∀ c ∈ digits count value, isSpace c = false ∧ c ≠ 0x2d ∧ c ≠ 0x2b ∧ c ≠ 0x78 ∧ c ≠ 0x58 := by
    intro c found
    obtain ⟨d, read⟩ := mem_digits found
    exact plain_of_digitValue read
  have number := readDigits_digits count value 0
  rw [Nat.zero_mul, Nat.zero_add] at number
  have radix : skipRadix (digits count value) = digits count value := by
    match shape : digits count value with
    | [] => rfl
    | [_] => rfl
    | [_, _] => rfl
    | z :: x :: c :: rest =>
        have second := plain x (by rw [shape]; simp)
        rw [skipRadix, if_neg]
        rintro ⟨-, lower | upper, -⟩
        · exact second.2.2.2.1 lower
        · exact second.2.2.2.2 upper
  have unsigned : sign ((digits count value).dropWhile isSpace) = (false, digits count value) := by
    match shape : digits count value with
    | [] => rfl
    | c :: rest =>
        obtain ⟨space, minus, plus, -⟩ := plain c (by rw [shape]; simp)
        rw [List.dropWhile_cons_of_neg (by rw [space]; decide), sign, if_neg minus, if_neg plus]
  rw [scan, unsigned]
  dsimp only
  rw [radix, number]

/-- A word written with enough digits is read back. -/
theorem strtoull_digits {width : Nat} (count : Nat) (word : BitVec width) (covers : width ≤ 4 * count)
    (narrow : width ≤ 64) : strtoull (digits count word.toNat) = word.setWidth 64 := by
  have fits : word.toNat < 16 ^ count := by
    calc word.toNat < 2 ^ width := word.isLt
      _ ≤ 2 ^ (4 * count) := Nat.pow_le_pow_right (by decide) covers
      _ = 16 ^ count := by rw [Nat.pow_mul]
  have bounded : word.toNat < 2 ^ 64 :=
    Nat.lt_of_lt_of_le word.isLt (Nat.pow_le_pow_right (by decide) narrow)
  rw [strtoull, scan_digits, Nat.mod_eq_of_lt fits]
  dsimp only
  rw [if_neg (Nat.not_le.mpr bounded), if_neg Bool.false_ne_true, BitVec.ofNat_toNat]

/-- `strtoll` saturates at the largest signed number. -/
theorem strtoll_digits (word : BitVec 64) :
    strtoll (digits 16 word.toNat) = if word.msb then BitVec.intMax 64 else word := by
  have fits : word.toNat < 16 ^ 16 := word.isLt
  rw [strtoll, scan_digits, Nat.mod_eq_of_lt fits]
  dsimp only
  rw [if_neg Bool.false_ne_true, BitVec.msb_eq_decide, BitVec.ofNat_toNat, BitVec.setWidth_eq]
  simp only [Nat.reduceSub, decide_eq_true_eq]

/-- Two digits for each byte. -/
def hex (bytes : List Byte) : List Byte := bytes.flatMap fun byte => digits 2 byte.toNat

/-- Any other character counts as the digit 0. -/
def nibble (c : Byte) : Nat := (digitValue c).getD 0

/-- The bytes written by pairs of characters, at most `room` of them. -/
def unhex : Nat → List Byte → List Byte
  | 0, _ => []
  | room + 1, high :: low :: rest => BitVec.ofNat 8 (nibble high * 16 + nibble low) :: unhex room rest
  | _ + 1, [_] => []
  | _ + 1, [] => []

theorem unhex_hex (bytes : List Byte) : unhex bytes.length (hex bytes) = bytes := by
  induction bytes with
  | nil => rfl
  | cons byte bytes ih =>
      have high : byte.toNat / 16 % 16 < 16 := Nat.mod_lt _ (by decide)
      have low : byte.toNat % 16 < 16 := Nat.mod_lt _ (by decide)
      have whole : byte.toNat / 16 % 16 * 16 + byte.toNat % 16 = byte.toNat := by
        have small := byte.isLt
        omega
      change BitVec.ofNat 8 (nibble (digit (byte.toNat / 16 ^ 1 % 16)) * 16 +
        nibble (digit (byte.toNat / 16 ^ 0 % 16))) :: unhex bytes.length (hex bytes) = _
      rw [ih, Nat.pow_one, Nat.pow_zero, Nat.div_one, nibble, nibble, digitValue_digit high, digitValue_digit low,
        Option.getD_some, Option.getD_some, whole, BitVec.ofNat_toNat, BitVec.setWidth_eq]

theorem mem_hex {bytes : List Byte} {c : Byte} (found : c ∈ hex bytes) : ∃ d, digitValue c = some d := by
  obtain ⟨byte, -, digit⟩ := List.mem_flatMap.mp found
  exact mem_digits digit

@[simp] theorem hex_length (bytes : List Byte) : (hex bytes).length = 2 * bytes.length := by
  induction bytes with
  | nil => rfl
  | cons byte bytes ih =>
      change (digits 2 byte.toNat ++ hex bytes).length = _
      rw [List.length_append, digits_length, ih, List.length_cons]
      omega

end ZeroTierNode.Library.Hex
