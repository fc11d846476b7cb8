import Mathlib.Data.List.Basic
import Mathlib.Data.List.Infix
import Mathlib.Algebra.Ring.Nat
import Mathlib.Tactic.Ring
import Mathlib.Tactic.Linarith

/-!
Byte strings: fixed-width big-endian words and positional reading. A reader that
takes `n` bytes at position `p` succeeds exactly inside the string, and a writer
that appends words is described by what `Stands` at each position.
-/

namespace ZeroTierNode.Library.Bytes

abbrev Byte := BitVec 8

/-- The `count` low-order bytes of `value`, most significant first. -/
def bigEndian : Nat → Nat → List Byte
  | 0, _ => []
  | count + 1, value => BitVec.ofNat 8 (value / 256 ^ count) :: bigEndian count value

/-- The number written most significant byte first. -/
def bigEndianValue (bytes : List Byte) : Nat :=
  bytes.foldl (fun value byte => value * 256 + byte.toNat) 0

@[simp] theorem bigEndian_length (count value : Nat) :
    (bigEndian count value).length = count := by
  induction count with
  | zero => rfl
  | succ count ih => simp only [bigEndian, List.length_cons, ih]

private theorem foldl_bigEndian (count value start : Nat) :
    (bigEndian count value).foldl (fun value byte => value * 256 + byte.toNat) start =
      start * 256 ^ count + value % 256 ^ count := by
  induction count generalizing start with
  | zero => simp [bigEndian, Nat.mod_one]
  | succ count ih =>
      simp only [bigEndian, List.foldl_cons]
      rw [ih, BitVec.toNat_ofNat, Nat.pow_succ 256 count, Nat.mod_mul, Nat.add_mul]
      ring

theorem bigEndianValue_bigEndian (count value : Nat) :
    bigEndianValue (bigEndian count value) = value % 256 ^ count := by
  rw [bigEndianValue, foldl_bigEndian, Nat.zero_mul, Nat.zero_add]

private theorem foldl_value (bytes : List Byte) (start : Nat) :
    bytes.foldl (fun value byte => value * 256 + byte.toNat) start =
      start * 256 ^ bytes.length + bigEndianValue bytes := by
  induction bytes generalizing start with
  | nil => simp [bigEndianValue]
  | cons byte bytes ih =>
      have alone : bigEndianValue (byte :: bytes) = byte.toNat * 256 ^ bytes.length + bigEndianValue bytes := by
        rw [bigEndianValue, List.foldl_cons, ih, Nat.zero_mul, Nat.zero_add]
      rw [List.foldl_cons, ih, alone, List.length_cons, Nat.pow_succ]
      ring

theorem bigEndianValue_append (first second : List Byte) :
    bigEndianValue (first ++ second) = bigEndianValue first * 256 ^ second.length + bigEndianValue second := by
  rw [bigEndianValue, List.foldl_append, foldl_value]
  rfl

/-- Only the low-order bytes of a value are written. -/
private theorem bigEndian_add (count high value : Nat) :
    bigEndian count (high * 256 ^ count + value) = bigEndian count value := by
  induction count generalizing high with
  | zero => rfl
  | succ count ih =>
      have shifted : high * 256 ^ (count + 1) = high * 256 * 256 ^ count := by rw [Nat.pow_succ]; ring
      have first : BitVec.ofNat 8 ((high * 256 * 256 ^ count + value) / 256 ^ count) =
          BitVec.ofNat 8 (value / 256 ^ count) := by
        rw [Nat.mul_comm (high * 256), Nat.mul_add_div (Nat.pow_pos (by decide))]
        apply BitVec.eq_of_toNat_eq
        simp only [BitVec.toNat_ofNat]
        omega
      rw [bigEndian, bigEndian, shifted, first, ih]

theorem bigEndianValue_lt (bytes : List Byte) : bigEndianValue bytes < 256 ^ bytes.length := by
  induction bytes with
  | nil => exact Nat.one_pos
  | cons byte bytes ih =>
      have split := bigEndianValue_append [byte] bytes
      rw [List.singleton_append, show bigEndianValue [byte] = byte.toNat by simp [bigEndianValue]] at split
      have octet : byte.toNat + 1 ≤ 256 := byte.isLt
      calc bigEndianValue (byte :: bytes) = byte.toNat * 256 ^ bytes.length + bigEndianValue bytes := split
        _ < byte.toNat * 256 ^ bytes.length + 256 ^ bytes.length := Nat.add_lt_add_left ih _
        _ = (byte.toNat + 1) * 256 ^ bytes.length := by ring
        _ ≤ 256 * 256 ^ bytes.length := Nat.mul_le_mul_right _ octet
        _ = 256 ^ (byte :: bytes).length := by rw [List.length_cons, Nat.pow_succ']

/-- Bytes are recovered from the number they stand for. -/
theorem bigEndian_bigEndianValue (bytes : List Byte) : bigEndian bytes.length (bigEndianValue bytes) = bytes := by
  induction bytes with
  | nil => rfl
  | cons byte bytes ih =>
      have split := bigEndianValue_append [byte] bytes
      rw [List.singleton_append, show bigEndianValue [byte] = byte.toNat by simp [bigEndianValue]] at split
      have first : (byte.toNat * 256 ^ bytes.length + bigEndianValue bytes) / 256 ^ bytes.length = byte.toNat := by
        rw [Nat.mul_comm, Nat.mul_add_div (Nat.pow_pos (by decide)), Nat.div_eq_of_lt (bigEndianValue_lt bytes),
          Nat.add_zero]
      rw [split, List.length_cons, bigEndian, first, bigEndian_add, ih, BitVec.ofNat_toNat, BitVec.setWidth_eq]

/-- The big-endian bytes of a machine word whose width is `count` bytes. -/
def wordBytes (count : Nat) {width : Nat} (word : BitVec width) : List Byte :=
  bigEndian count word.toNat

/-- The machine word read from big-endian bytes. -/
def wordOf (width : Nat) (bytes : List Byte) : BitVec width :=
  BitVec.ofNat width (bigEndianValue bytes)

@[simp] theorem wordBytes_length (count : Nat) {width : Nat} (word : BitVec width) :
    (wordBytes count word).length = count := bigEndian_length _ _

theorem bigEndianValue_wordBytes (count : Nat) {width : Nat} (word : BitVec width) (covers : width ≤ 8 * count) :
    bigEndianValue (wordBytes count word) = word.toNat := by
  have fits : word.toNat < 256 ^ count := by
    calc word.toNat < 2 ^ width := word.isLt
      _ ≤ 2 ^ (8 * count) := Nat.pow_le_pow_right (by decide) covers
      _ = 256 ^ count := by rw [Nat.pow_mul]
  rw [wordBytes, bigEndianValue_bigEndian, Nat.mod_eq_of_lt fits]

/-- A word survives being written and read when the byte count covers its width. -/
theorem wordOf_wordBytes (count : Nat) {width : Nat} (word : BitVec width)
    (covers : width ≤ 8 * count) : wordOf width (wordBytes count word) = word := by
  apply BitVec.eq_of_toNat_eq
  rw [wordOf, bigEndianValue_wordBytes count word covers, BitVec.toNat_ofNat, Nat.mod_eq_of_lt word.isLt]

/-- Bytes survive being read as a word of their width. -/
theorem wordBytes_wordOf (bytes : List Byte) : wordBytes bytes.length (wordOf (8 * bytes.length) bytes) = bytes := by
  have fits : bigEndianValue bytes < 2 ^ (8 * bytes.length) := by
    rw [Nat.pow_mul]
    exact bigEndianValue_lt bytes
  rw [wordBytes, wordOf, BitVec.toNat_ofNat, Nat.mod_eq_of_lt fits, bigEndian_bigEndianValue]

/-- Strings that start with a word each are equal when the words and the rests are. -/
theorem wordBytes_append_inj {count width : Nat} (covers : width ≤ 8 * count) {first second : BitVec width}
    {rest others : List Byte} :
    wordBytes count first ++ rest = wordBytes count second ++ others ↔ first = second ∧ rest = others := by
  constructor
  · intro same
    obtain ⟨words, rests⟩ := List.append_inj same (by rw [wordBytes_length, wordBytes_length])
    refine ⟨?_, rests⟩
    rw [← wordOf_wordBytes count first covers, words, wordOf_wordBytes count second covers]
  · rintro ⟨rfl, rfl⟩
    rfl

/-- The least significant byte comes last. -/
theorem wordBytes_concat (count : Nat) {width : Nat} (word : BitVec width) :
    wordBytes (count + 1) word = bigEndian count (word.toNat / 256) ++ [word.setWidth 8] := by
  have split (value : Nat) : bigEndian (count + 1) value = bigEndian count (value / 256) ++ [BitVec.ofNat 8 value] := by
    induction count with
    | zero => simp [bigEndian]
    | succ count ih =>
        rw [bigEndian, ih, bigEndian, List.cons_append, Nat.div_div_eq_div_mul, Nat.pow_succ']
  rw [wordBytes, split, BitVec.ofNat_toNat]

/-- `count` bytes of `bytes` from position `start`, when they lie inside it. -/
def fieldAt (bytes : List Byte) (start count : Nat) : Option (List Byte) :=
  if start + count ≤ bytes.length then some ((bytes.drop start).take count) else none

theorem fieldAt_some {bytes found : List Byte} {start count : Nat}
    (read : fieldAt bytes start count = some found) :
    start + count ≤ bytes.length ∧ found = (bytes.drop start).take count ∧ found.length = count := by
  unfold fieldAt at read
  split at read
  · rename_i inside
    cases read
    refine ⟨inside, rfl, ?_⟩
    rw [List.length_take, List.length_drop]
    omega
  · cases read

/-- `part` is what the string holds from position `start` on. -/
def Stands (part bytes : List Byte) (start : Nat) : Prop :=
  part <+: bytes.drop start

theorem stands_append {first second bytes : List Byte} {start : Nat} :
    Stands (first ++ second) bytes start ↔
      Stands first bytes start ∧ Stands second bytes (start + first.length) := by
  unfold Stands
  constructor
  · rintro ⟨rest, same⟩
    refine ⟨⟨second ++ rest, ?_⟩, ⟨rest, ?_⟩⟩
    · rw [← same, List.append_assoc]
    · rw [← List.drop_drop, ← same, List.append_assoc, List.drop_left]
  · rintro ⟨⟨after, same⟩, ⟨rest, tail⟩⟩
    refine ⟨rest, ?_⟩
    rw [← List.drop_drop, ← same, List.drop_left] at tail
    rw [List.append_assoc, tail, same]

theorem stands_self (bytes : List Byte) : Stands bytes bytes 0 := List.prefix_rfl

theorem Stands.inside {part bytes : List Byte} {start : Nat} (here : Stands part bytes start)
    (nonempty : part ≠ []) : start + part.length ≤ bytes.length := by
  have short := List.IsPrefix.length_le here
  have positive := List.length_pos_iff.mpr nonempty
  rw [List.length_drop] at short
  omega

/-- Reading where a part stands returns the part. -/
theorem fieldAt_of_stands {part bytes : List Byte} {start : Nat} (here : Stands part bytes start)
    (nonempty : part ≠ []) : fieldAt bytes start part.length = some part := by
  rw [fieldAt, if_pos (here.inside nonempty)]
  obtain ⟨rest, same⟩ := here
  rw [← same, List.take_left]

end ZeroTierNode.Library.Bytes
