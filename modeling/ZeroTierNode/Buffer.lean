import ZeroTierNode.Library.Bytes

/-!
The reading half of `Buffer<C>`: integers are big-endian, and a read outside the
current size throws. Fixed-size byte arrays are machine words of the same number
of bytes. Positions are naturals; every caller modelled here keeps them far below
the 32-bit range in which the source computes them.
-/

namespace ZeroTierNode.Buffer
open Library.Bytes

/-- `at<T>(i)` and `field(i, count)` read as a word of `width` bits. -/
def atWord (width count : Nat) (b : List Byte) (i : Nat) : Option (BitVec width) :=
  (fieldAt b i count).map (wordOf width)

def at8 (b : List Byte) (i : Nat) : Option Byte := atWord 8 1 b i
def at16 (b : List Byte) (i : Nat) : Option (BitVec 16) := atWord 16 2 b i
def at32 (b : List Byte) (i : Nat) : Option (BitVec 32) := atWord 32 4 b i
def at64 (b : List Byte) (i : Nat) : Option (BitVec 64) := atWord 64 8 b i

/-- A word that stands at a position is read there, and the rest stands behind it. -/
theorem atWord_of_stands {width count : Nat} {word : BitVec width} {rest b : List Byte} {i : Nat}
    (covers : width ≤ 8 * count) (positive : 0 < count)
    (here : Stands (wordBytes count word ++ rest) b i) :
    atWord width count b i = some word ∧ Stands rest b (i + count) := by
  obtain ⟨first, behind⟩ := stands_append.mp here
  rw [wordBytes_length] at behind
  have nonempty : wordBytes count word ≠ [] := by
    rw [ne_eq, ← List.length_eq_zero_iff, wordBytes_length]
    omega
  have read := fieldAt_of_stands first nonempty
  rw [wordBytes_length] at read
  refine ⟨?_, behind⟩
  rw [atWord, read, Option.map_some, wordOf_wordBytes count word covers]

/-- A word is read exactly where its bytes lie inside the buffer. -/
theorem atWord_isSome (width count : Nat) (b : List Byte) (i : Nat) :
    (atWord width count b i).isSome = true ↔ i + count ≤ b.length := by
  rw [atWord, Option.isSome_map, fieldAt]
  by_cases inside : i + count ≤ b.length
  · simp [inside]
  · simp [inside]

theorem atWord_inside {width count : Nat} {word : BitVec width} {b : List Byte} {i : Nat}
    (read : atWord width count b i = some word) : i + count ≤ b.length := by
  rw [atWord, Option.map_eq_some_iff] at read
  obtain ⟨found, read, -⟩ := read
  exact (fieldAt_some read).1

end ZeroTierNode.Buffer
