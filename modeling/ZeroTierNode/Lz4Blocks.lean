import ZeroTierNode.Library.BackReferences

/-!
The block format of LZ4: sequences of literals and a match, each behind a token, then the last literals. A plain decoder
on byte strings says what a block means, and with which restrictions at its end it is accepted.
-/

namespace ZeroTierNode.Lz4Blocks
open Library.Bytes Library.BackReferences

section Decoder

/-- What follows a length that fills its half of the token: bytes of 255 up to the first that is less. -/
def moreLength : List Byte → Option (Nat × List Byte)
  | [] => none
  | s :: rest => if s = 255 then (moreLength rest).map fun more => (255 + more.1, more.2) else some (s.toNat, rest)

/-- A length, from half of a token and what follows it (`RUN_MASK`, `ML_MASK`). -/
def lengthField (half : Nat) (input : List Byte) : Option (Nat × List Byte) :=
  if half = 15 then (moreLength input).map fun more => (15 + more.1, more.2) else some (half, input)

/-- The match of a sequence, from the input and the text behind its literals. -/
def plainMatch (max : Nat) (token : Byte) : List Byte → List Byte → Option (List Byte × List Byte)
  | low :: high :: rest, text =>
    if text.length < low.toNat + 256 * high.toNat then none
    else (lengthField (token.toNat % 16) rest).bind fun field =>
      if field.2.length < 5 ∨ max < text.length + field.1 + 9 then none
      else some (field.2, copyBack (low.toNat + 256 * high.toNat) (field.1 + 4) text)
  | _, _ => none

/-- The text of a block that must fit in `max` bytes. Literals that end too near to either end (`MFLIMIT`,
`2 + 1 + LASTLITERALS`) must be the last. -/
def plainDecode (max : Nat) : Nat → List Byte → List Byte → Option (List Byte)
  | 0, _, _ => none
  | _ + 1, [], _ => none
  | fuel + 1, token :: input, text =>
    (lengthField (token.toNat / 16) input).bind fun field =>
      if max < text.length + field.1 + 12 ∨ field.2.length < field.1 + 8 then
        if field.2.length = field.1 ∧ text.length + field.1 ≤ max then some (text ++ field.2) else none
      else (plainMatch max token (field.2.drop field.1) (text ++ field.2.take field.1)).bind fun next =>
        plainDecode max fuel next.1 next.2

end Decoder

/-- The bytes of a length behind the token. -/
def lengthBytes (n : Nat) : List Byte :=
  if n < 15 then [] else List.replicate ((n - 15) / 255) 255 ++ [BitVec.ofNat 8 ((n - 15) % 255)]

/-- The token for a number of literals and a length of a match. -/
def tokenFor (run rest : Nat) : Byte := BitVec.ofNat 8 (min run 15 * 16 + min rest 15)

structure Sequence where
  literals : List Byte
  offset : Nat
  length : Nat
  /-- `MAX_DISTANCE` -/
  near : offset < 2 ^ 16
  /-- `MINMATCH` -/
  long : 4 ≤ length

namespace Sequence

def bytes (s : Sequence) : List Byte :=
  tokenFor s.literals.length (s.length - 4) :: (lengthBytes s.literals.length ++ (s.literals ++
    (BitVec.ofNat 8 s.offset :: BitVec.ofNat 8 (s.offset / 256) :: lengthBytes (s.length - 4))))

/-- The text with the sequence behind it. -/
def extend (s : Sequence) (text : List Byte) : List Byte := copyBack s.offset s.length (text ++ s.literals)

end Sequence

/-- The last literals with their token. -/
def lastBytes (literals : List Byte) : List Byte :=
  tokenFor literals.length 0 :: (lengthBytes literals.length ++ literals)

/-- `bytes` are sequences that extend the empty text to `text`, with the distances to the end of a text of `n` bytes. -/
inductive Encodes (n : Nat) : List Byte → List Byte → Prop where
  | start : Encodes n [] []
  | next {bytes text : List Byte} (s : Sequence) (before : Encodes n bytes text)
      (literals : text.length + s.literals.length + 12 ≤ n) (known : s.offset ≤ text.length + s.literals.length)
      (ends : text.length + s.literals.length + s.length + 5 ≤ n) : Encodes n (bytes ++ s.bytes) (s.extend text)

section Lengths

theorem length_lengthBytes (n : Nat) : (lengthBytes n).length = if n < 15 then 0 else (n - 15) / 255 + 1 := by
  unfold lengthBytes
  split
  · rfl
  · rw [List.length_append, List.length_replicate, List.length_singleton]

theorem length_extend (s : Sequence) (text : List Byte) :
    (s.extend text).length = text.length + s.literals.length + s.length := by
  rw [Sequence.extend, length_copyBack, List.length_append]

theorem length_bytes (s : Sequence) : s.bytes.length =
    3 + (lengthBytes s.literals.length).length + s.literals.length + (lengthBytes (s.length - 4)).length := by
  simp only [Sequence.bytes, List.length_cons, List.length_append]
  omega

theorem length_lastBytes (literals : List Byte) :
    (lastBytes literals).length = 1 + (lengthBytes literals.length).length + literals.length := by
  simp only [lastBytes, List.length_cons, List.length_append]
  omega

/-- Sequences grow by at most one byte in 255. -/
theorem length_le_of_encodes {n : Nat} {bytes text : List Byte} (encodes : Encodes n bytes text) :
    bytes.length ≤ text.length + text.length / 255 ∧ text.length ≤ n := by
  induction encodes with
  | start => exact ⟨Nat.le_refl 0, Nat.zero_le n⟩
  | next s before literals known ends ih =>
      have long := s.long
      rw [List.length_append, length_bytes, length_extend, length_lengthBytes, length_lengthBytes]
      constructor
      · split <;> split <;> omega
      · omega

theorem eq_nil_of_encodes {n : Nat} {bytes text : List Byte} (encodes : Encodes n bytes text) (empty : text = []) :
    bytes = [] := by
  cases encodes with
  | start => rfl
  | next s before =>
      have size := congrArg List.length empty
      have long := s.long
      rw [length_extend, List.length_nil] at size
      omega

/-- A half that is full goes on behind the token. -/
theorem lengthField_full {half n : Nat} {input rest : List Byte} (full : half = 15) :
    lengthField half input = some (n, rest) ↔ ∃ more, n = 15 + more ∧ moreLength input = some (more, rest) := by
  rw [lengthField, if_pos full, Option.map_eq_some_iff]
  constructor
  · rintro ⟨⟨more, left⟩, read, result⟩
    rw [Prod.mk.injEq] at result
    dsimp only at result
    exact ⟨more, result.1.symm, by rw [read, result.2]⟩
  · rintro ⟨more, sum, read⟩
    exact ⟨(more, rest), read, by rw [sum]⟩

/-- A byte of 255 and what follows it. -/
theorem moreLength_full {n : Nat} {input rest : List Byte} :
    moreLength (255 :: input) = some (n, rest) ↔ ∃ more, n = 255 + more ∧ moreLength input = some (more, rest) := by
  rw [moreLength, if_pos rfl, Option.map_eq_some_iff]
  constructor
  · rintro ⟨⟨more, left⟩, read, result⟩
    rw [Prod.mk.injEq] at result
    dsimp only at result
    exact ⟨more, result.1.symm, by rw [read, result.2]⟩
  · rintro ⟨more, sum, read⟩
    exact ⟨(more, rest), read, by rw [sum]⟩

theorem length_moreLength {input rest : List Byte} {more : Nat} (read : moreLength input = some (more, rest)) :
    rest.length < input.length := by
  induction input generalizing more rest with
  | nil => cases read
  | cons s input ih =>
      rw [moreLength] at read
      split at read
      · obtain ⟨⟨found, left⟩, inner, result⟩ := Option.map_eq_some_iff.mp read
        have shorter := ih inner
        rw [Prod.mk.injEq] at result
        rw [List.length_cons, ← result.2]
        exact Nat.lt_succ_of_lt shorter
      · cases read
        exact Nat.lt_succ_self _

theorem moreLength_bytes (q : Nat) {r : Nat} (small : r < 255) (rest : List Byte) :
    moreLength (List.replicate q 255 ++ (BitVec.ofNat 8 r :: rest)) = some (255 * q + r, rest) := by
  induction q with
  | zero =>
      have value : (BitVec.ofNat 8 r).toNat = r := by
        rw [BitVec.toNat_ofNat, Nat.mod_eq_of_lt (by omega)]
      have differs : BitVec.ofNat 8 r ≠ 255 := by
        intro same
        have values := congrArg BitVec.toNat same
        rw [value] at values
        exact absurd values (by simp; omega)
      rw [List.replicate_zero, List.nil_append, moreLength, if_neg differs, value, Nat.mul_zero, Nat.zero_add]
  | succ q ih =>
      rw [List.replicate_succ, List.cons_append, moreLength, if_pos rfl, ih, Option.map_some]
      congr 2
      omega

/-- A length is read back as it was written. -/
theorem lengthField_lengthBytes (n : Nat) (rest : List Byte) :
    lengthField (min n 15) (lengthBytes n ++ rest) = some (n, rest) := by
  by_cases short : n < 15
  · rw [Nat.min_eq_left (by omega), lengthField, if_neg (by omega), lengthBytes, if_pos short, List.nil_append]
  · have parts : 255 * ((n - 15) / 255) + (n - 15) % 255 = n - 15 := Nat.div_add_mod (n - 15) 255
    rw [Nat.min_eq_right (by omega), lengthField, if_pos rfl, lengthBytes, if_neg short, List.append_assoc,
      List.singleton_append, moreLength_bytes _ (Nat.mod_lt _ (by decide)), parts, Option.map_some]
    congr 2
    omega

theorem tokenFor_toNat (run rest : Nat) : (tokenFor run rest).toNat = min run 15 * 16 + min rest 15 := by
  rw [tokenFor, BitVec.toNat_ofNat]
  omega

theorem tokenFor_div (run rest : Nat) : (tokenFor run rest).toNat / 16 = min run 15 := by
  rw [tokenFor_toNat]
  omega

theorem tokenFor_mod (run rest : Nat) : (tokenFor run rest).toNat % 16 = min rest 15 := by
  rw [tokenFor_toNat]
  omega

end Lengths

section RoundTrip

variable {max n fuel : Nat} {text : List Byte}

theorem plainMatch_bytes (s : Sequence) (known : s.offset ≤ text.length + s.literals.length)
    (ends : text.length + s.literals.length + s.length + 5 ≤ max) {rest : List Byte} (follows : 5 ≤ rest.length) :
    plainMatch max (tokenFor s.literals.length (s.length - 4)) (BitVec.ofNat 8 s.offset ::
      BitVec.ofNat 8 (s.offset / 256) :: (lengthBytes (s.length - 4) ++ rest)) (text ++ s.literals) =
      some (rest, s.extend text) := by
  have near := s.near
  have long := s.long
  have size : (text ++ s.literals).length = text.length + s.literals.length := List.length_append
  have offset : (BitVec.ofNat 8 s.offset).toNat + 256 * (BitVec.ofNat 8 (s.offset / 256)).toNat = s.offset := by
    simp only [BitVec.toNat_ofNat]
    omega
  have length : s.length - 4 + 4 = s.length := Nat.sub_add_cancel long
  rw [plainMatch, offset, if_neg (by omega), tokenFor_mod, lengthField_lengthBytes, Option.bind_some]
  dsimp only
  rw [if_neg (by omega), length, Sequence.extend]

/-- A sequence is decoded to what it says, wherever it stands. -/
theorem plainDecode_sequence (s : Sequence) (literals : text.length + s.literals.length + 12 ≤ max)
    (known : s.offset ≤ text.length + s.literals.length)
    (ends : text.length + s.literals.length + s.length + 5 ≤ max) {rest : List Byte} (follows : 6 ≤ rest.length) :
    plainDecode max (fuel + 1) (s.bytes ++ rest) text = plainDecode max fuel rest (s.extend text) := by
  simp only [Sequence.bytes, List.cons_append, List.append_assoc]
  rw [plainDecode, tokenFor_div, lengthField_lengthBytes, Option.bind_some]
  dsimp only
  have room : ¬(max < text.length + s.literals.length + 12 ∨ (s.literals ++ (BitVec.ofNat 8 s.offset ::
      BitVec.ofNat 8 (s.offset / 256) :: (lengthBytes (s.length - 4) ++ rest))).length < s.literals.length + 8) := by
    simp only [List.length_append, List.length_cons]
    omega
  rw [if_neg room, List.drop_left, List.take_left, plainMatch_bytes s known ends (by omega), Option.bind_some]

theorem plainDecode_last (literals : List Byte) (fits : text.length + literals.length ≤ max) :
    plainDecode max (fuel + 1) (lastBytes literals) text = some (text ++ literals) := by
  have field := lengthField_lengthBytes literals.length literals
  rw [lastBytes, plainDecode, tokenFor_div, field, Option.bind_some]
  dsimp only
  rw [if_pos (Or.inr (by omega)), if_pos ⟨rfl, fits⟩]

/-- Sequences are decoded to the text that they extend the empty one to. -/
theorem plainDecode_encodes (room : n ≤ max) {bytes : List Byte} (encodes : Encodes n bytes text) :
    ∃ turns ≤ bytes.length, ∀ fuel rest, 6 ≤ rest.length →
      plainDecode max (turns + fuel) (bytes ++ rest) [] = plainDecode max fuel rest text := by
  induction encodes with
  | start => exact ⟨0, Nat.le_refl 0, fun fuel rest _ => by rw [Nat.zero_add, List.nil_append]⟩
  | @next bytes text s before literals known ends ih =>
      obtain ⟨turns, bounded, decoded⟩ := ih
      have size := length_bytes s
      refine ⟨turns + 1, ?_, ?_⟩
      · rw [List.length_append]
        omega
      · intro fuel rest follows
        have longer : 6 ≤ (s.bytes ++ rest).length := by
          rw [List.length_append]
          omega
        rw [List.append_assoc, Nat.add_assoc, Nat.add_comm 1 fuel, decoded (fuel + 1) _ longer,
          plainDecode_sequence s (by omega) known (by omega) follows]

/-- A block is decoded to its text in any buffer that the text fits in. -/
theorem plainDecode_block (room : n ≤ max) {bytes literals : List Byte} (encodes : Encodes n bytes text)
    (whole : text.length + literals.length = n) (last : text = [] ∨ 5 ≤ literals.length) {fuel : Nat}
    (enough : (bytes ++ lastBytes literals).length < fuel) :
    plainDecode max fuel (bytes ++ lastBytes literals) [] = some (text ++ literals) := by
  have size := length_lastBytes literals
  rw [List.length_append] at enough
  have final (left : Nat) : plainDecode max (left + 1) (lastBytes literals) text = some (text ++ literals) :=
    plainDecode_last literals (by omega)
  cases last with
  | inl none =>
      obtain ⟨left, rfl⟩ : ∃ left, fuel = left + 1 := ⟨fuel - 1, by omega⟩
      rw [none] at final ⊢
      rw [eq_nil_of_encodes encodes none, List.nil_append]
      exact final left
  | inr some' =>
      obtain ⟨turns, bounded, decoded⟩ := plainDecode_encodes room encodes
      obtain ⟨left, rfl⟩ : ∃ left, fuel = turns + (left + 1) := ⟨fuel - turns - 1, by omega⟩
      rw [decoded (left + 1) _ (by omega), final left]

end RoundTrip

end ZeroTierNode.Lz4Blocks
