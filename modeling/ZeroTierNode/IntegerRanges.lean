import ZeroTierNode.FrameReads
import ZeroTierNode.Library.BitFields

/-!
`MATCH_INTEGER_RANGE`. The rule names an integer of up to 64 bits by its index in
the frame and its byte order; the loop that reads it, the mask and the comparison
are compared with the exact integer.
-/

namespace ZeroTierNode.IntegerRanges
open Library.Bytes Library.BitFields ZeroTierNode.Filter
open FrameReads (shiftIn shiftDown)

/-- A rule for an integer range, without NOT. -/
structure RangeRule where
  rule : Rule
  kind : rule.ruleType = .matchIntegerRange
  plain : rule.isNot = false

namespace RangeRule

variable (range : RangeRule)

/-- `(format & 63) + 1`. -/
def bits : Nat := (range.rule.v.intRangeFormat &&& 63).toNat + 1

/-- The bytes that the bits need. -/
def bytes : Nat := (range.bits + 8 - 1) / 8

/-- The top bit of the format says little-endian. -/
def little : Bool := range.rule.v.intRangeFormat &&& 0x80 ≠ 0

def idx : Nat := range.rule.v.intRangeIdx.toNat

def start : Nat := range.rule.v.intRangeStart.toNat

/-- The end of the range, which is inclusive. -/
def last : Nat := range.rule.v.intRangeStart.toNat + range.rule.v.intRangeEnd.toNat

end RangeRule

/-- Bytes of the frame. -/
def bytesAt (q : FilterInput) (position count : Nat) : List Byte :=
  (List.range count).map (fun i => q.frameData (position + i))

/-- The integer that is stored at the index. -/
def storedInteger (q : FilterInput) (range : RangeRule) : Nat :=
  (if range.little then littleEndianValue (bytesAt q range.idx range.bytes)
    else bigEndianValue (bytesAt q range.idx range.bytes)) % 2 ^ range.bits

/-- The code reads the integer at the index: little-endian with whole bytes, big-endian with eight. -/
def RangeRule.AtIndex (range : RangeRule) : Prop :=
  (range.little = true ∧ range.bits = 8 * range.bytes) ∨ (range.little = false ∧ range.bytes = 8)

/-- On frames of this length the match is right whatever they hold: the range begins beyond the integer; or the
integer does not fit and is not taken for 0; or it fits and the range holds everything, or it is read where it is
and the end does not wrap around. -/
def RangeRule.Exact (range : RangeRule) (frameLen : Nat) : Prop :=
  2 ^ range.bits ≤ range.start ∨ (frameLen < range.idx + range.bytes ∧ range.start ≠ 0) ∨
    (range.idx + range.bytes ≤ frameLen ∧
      ((range.start = 0 ∧ 2 ^ range.bits - 1 ≤ range.last) ∨ (range.AtIndex ∧ range.last < 2 ^ 64)))

/-- What the match should come to: the integer lies in the frame and in the range. -/
def Meets (q : FilterInput) (range : RangeRule) : Prop :=
  range.idx + range.bytes ≤ q.frameLen ∧ range.start ≤ storedInteger q range ∧ storedInteger q range ≤ range.last

section Widths

variable (range : RangeRule)

theorem bits_pos : 0 < range.bits := Nat.succ_pos _

theorem bits_le : range.bits ≤ 64 := by
  have low : (range.rule.v.intRangeFormat &&& 63).toNat ≤ 63 := by
    rw [BitVec.toNat_and]
    exact Nat.and_le_right
  exact Nat.succ_le_succ low

theorem bits_le_bytes : range.bits ≤ 8 * range.bytes := by
  unfold RangeRule.bytes
  omega

theorem bytes_le_bits : 8 * range.bytes < range.bits + 8 := by
  have positive := bits_pos range
  unfold RangeRule.bytes
  omega

theorem bytes_le : range.bytes ≤ 8 := by
  have small := bits_le range
  have tight := bytes_le_bits range
  omega

theorem bytesAt_length (q : FilterInput) (position count : Nat) : (bytesAt q position count).length = count := by
  rw [bytesAt, List.length_map, List.length_range]

theorem bytesAt_add (q : FilterInput) (position first second : Nat) :
    bytesAt q position (first + second) = bytesAt q position first ++ bytesAt q (position + first) second := by
  simp [bytesAt, List.range_add, Nat.add_assoc]

/-- The first bytes of a number are its high part, the last its low part. -/
theorem bigEndianValue_first (q : FilterInput) (position first second : Nat) :
    bigEndianValue (bytesAt q position first) = bigEndianValue (bytesAt q position (first + second)) / 256 ^ second := by
  have low := bigEndianValue_lt (bytesAt q (position + first) second)
  rw [bytesAt_length] at low
  rw [bytesAt_add, bigEndianValue_append, bytesAt_length, Nat.mul_comm, Nat.mul_add_div (Nat.pow_pos (by decide)),
    Nat.div_eq_of_lt low, Nat.add_zero]

theorem bigEndianValue_last (q : FilterInput) (position first second : Nat) :
    bigEndianValue (bytesAt q (position + first) second) =
      bigEndianValue (bytesAt q position (first + second)) % 256 ^ second := by
  have low := bigEndianValue_lt (bytesAt q (position + first) second)
  rw [bytesAt_length] at low
  rw [bytesAt_add, bigEndianValue_append, bytesAt_length, Nat.mul_comm, Nat.mul_add_mod, Nat.mod_eq_of_lt low]

end Widths

section Loops

/-- The big-endian loop reads the value of up to eight bytes. -/
theorem shiftIn_toNat (bytes : List Byte) (short : bytes.length ≤ 8) :
    (shiftIn bytes).toNat = bigEndianValue bytes := by
  induction bytes using List.reverseRecOn with
  | nil => rfl
  | append_singleton bytes byte ih =>
      rw [List.length_append, List.length_singleton] at short
      have value := ih (by omega)
      have bound : bigEndianValue bytes < 2 ^ 56 := by
        calc bigEndianValue bytes < 256 ^ bytes.length := bigEndianValue_lt bytes
          _ ≤ 256 ^ 7 := Nat.pow_le_pow_right (by decide) (by omega)
          _ = 2 ^ 56 := by decide
      have alone : bigEndianValue [byte] = byte.toNat := by simp [bigEndianValue]
      have octet : byte.toNat < 2 ^ 8 := byte.isLt
      have step : shiftIn (bytes ++ [byte]) = (shiftIn bytes <<< 8) ||| byte.setWidth 64 := by
        rw [shiftIn, List.foldl_append]
        rfl
      rw [step, BitVec.toNat_or, BitVec.toNat_shiftLeft, BitVec.toNat_setWidth, value, bigEndianValue_append, alone,
        Nat.mod_eq_of_lt (show byte.toNat < 2 ^ 64 by omega), Nat.shiftLeft_eq,
        Nat.mod_eq_of_lt (show bigEndianValue bytes * 2 ^ 8 < 2 ^ 64 by omega), ← Nat.shiftLeft_eq,
        ← Nat.shiftLeft_add_eq_or_of_lt octet, Nat.shiftLeft_eq]
      rfl

/-- The little-endian loop leaves the value of the bytes at the top of the word. -/
theorem shiftDown_toNat (bytes : List Byte) (short : bytes.length ≤ 8) :
    (shiftDown bytes).toNat = littleEndianValue bytes * 2 ^ (64 - 8 * bytes.length) := by
  induction bytes using List.reverseRecOn with
  | nil => rfl
  | append_singleton bytes byte ih =>
      rw [List.length_append, List.length_singleton] at short
      have value := ih (by omega)
      have octet : byte.toNat < 2 ^ 8 := byte.isLt
      have room : 64 - 8 * bytes.length = (56 - 8 * bytes.length) + 8 := by omega
      have shifted : (shiftDown bytes >>> 8).toNat = littleEndianValue bytes * 2 ^ (56 - 8 * bytes.length) := by
        rw [BitVec.toNat_ushiftRight, value, room, Nat.pow_add, ← Nat.mul_assoc, Nat.shiftRight_eq_div_pow,
          Nat.mul_div_cancel _ (by decide)]
      have bound : littleEndianValue bytes * 2 ^ (56 - 8 * bytes.length) < 2 ^ 56 := by
        calc littleEndianValue bytes * 2 ^ (56 - 8 * bytes.length)
            < 256 ^ bytes.length * 2 ^ (56 - 8 * bytes.length) :=
              Nat.mul_lt_mul_of_pos_right (littleEndianValue_lt bytes) (Nat.pow_pos (by decide))
          _ = 2 ^ (8 * bytes.length) * 2 ^ (56 - 8 * bytes.length) := by rw [Nat.pow_mul]
          _ = 2 ^ 56 := by rw [← Nat.pow_add, Nat.add_sub_of_le (by omega)]
      have step : shiftDown (bytes ++ [byte]) = (shiftDown bytes >>> 8) ||| (byte.setWidth 64 <<< 56) := by
        rw [shiftDown, List.foldl_append]
        rfl
      have width : 56 - 8 * bytes.length + 8 * bytes.length = 56 := by omega
      have rest : 64 - 8 * (bytes.length + 1) = 56 - 8 * bytes.length := by omega
      rw [step, BitVec.toNat_or, shifted, BitVec.toNat_shiftLeft, BitVec.toNat_setWidth,
        Nat.mod_eq_of_lt (show byte.toNat < 2 ^ 64 by omega), Nat.shiftLeft_eq,
        Nat.mod_eq_of_lt (show byte.toNat * 2 ^ 56 < 2 ^ 64 by omega), Nat.or_comm, ← Nat.shiftLeft_eq,
        ← Nat.shiftLeft_add_eq_or_of_lt bound, Nat.shiftLeft_eq, littleEndianValue_concat, List.length_append,
        List.length_singleton, rest, Nat.add_mul]
      congr 1
      calc byte.toNat * 2 ^ 56 = byte.toNat * 2 ^ (8 * bytes.length + (56 - 8 * bytes.length)) := by
            rw [Nat.add_comm (8 * bytes.length), width]
        _ = byte.toNat * 256 ^ bytes.length * 2 ^ (56 - 8 * bytes.length) := by
            rw [Nat.pow_add, Nat.pow_mul, ← Nat.mul_assoc]

end Loops

section Code

variable (q : FilterInput) (range : RangeRule)

theorem mask_toNat (x : BitVec 64) {bits : Nat} (small : bits ≤ 64) :
    (x &&& (BitVec.allOnes 64 >>> (64 - bits))).toNat = x.toNat % 2 ^ bits := by
  have ones : (BitVec.allOnes 64 >>> (64 - bits)).toNat = 2 ^ bits - 1 := by
    have split : 2 ^ 64 = 2 ^ bits * 2 ^ (64 - bits) := by rw [← Nat.pow_add, Nat.add_sub_of_le small]
    have positive : 0 < 2 ^ (64 - bits) := Nat.pow_pos (by decide)
    rw [BitVec.toNat_ushiftRight, BitVec.toNat_allOnes, Nat.shiftRight_eq_div_pow, split, Nat.mul_comm,
      Nat.mul_sub_div 0 _ _ (by rw [← Nat.mul_comm, ← split]; decide), Nat.zero_div]
  rw [BitVec.toNat_and, ones, Nat.and_two_pow_sub_one_eq_mod]

/-- What the code reads big-endian: the low bits of the eight bytes at the index. -/
theorem big_integer (big : range.little = false) :
    (frameInteger q range.rule).toNat =
      if range.idx + 8 ≤ q.frameLen then
        bigEndianValue (bytesAt q (range.idx + (8 - range.bytes)) range.bytes) % 2 ^ range.bits
      else 0 := by
  have order : range.rule.v.intRangeFormat &&& 0x80 = 0 := Decidable.not_not.mp (of_decide_eq_false big)
  have short := bytes_le range
  have loop : frameInteger q range.rule =
      (if range.idx + (8 - range.bytes) + range.bytes ≤ q.frameLen then
        shiftIn (bytesAt q (range.idx + (8 - range.bytes)) range.bytes) else 0) &&&
          (BitVec.allOnes 64 >>> (64 - range.bits)) := by
    unfold frameInteger shiftIn bytesAt
    rw [if_pos order, List.foldl_map]
    rfl
  have position : range.idx + (8 - range.bytes) + range.bytes = range.idx + 8 := by omega
  rw [loop, mask_toNat _ (bits_le range), position]
  split
  · rw [shiftIn_toNat _ (by rw [bytesAt_length]; exact short)]
  · exact Nat.zero_mod _

/-- What it reads little-endian: the high bits of the bytes at the index. -/
theorem little_integer (little : range.little = true) :
    (frameInteger q range.rule).toNat =
      if range.idx + range.bytes ≤ q.frameLen then
        littleEndianValue (bytesAt q range.idx range.bytes) / 2 ^ (8 * range.bytes - range.bits)
      else 0 := by
  have order : ¬ range.rule.v.intRangeFormat &&& 0x80 = 0 := of_decide_eq_true little
  have loop : frameInteger q range.rule =
      (if range.idx + range.bytes ≤ q.frameLen then shiftDown (bytesAt q range.idx range.bytes) else 0) >>>
        (64 - range.bits) := by
    unfold frameInteger shiftDown bytesAt
    rw [if_neg order, List.foldl_map]
    rfl
  rw [loop, BitVec.toNat_ushiftRight, Nat.shiftRight_eq_div_pow]
  split
  · have covers := bits_le_bytes range
    have short := bytes_le range
    have split : 2 ^ (64 - range.bits) = 2 ^ (8 * range.bytes - range.bits) * 2 ^ (64 - 8 * range.bytes) := by
      rw [← Nat.pow_add]
      congr 1
      omega
    rw [shiftDown_toNat _ (by rw [bytesAt_length]; exact short), bytesAt_length, split,
      Nat.mul_div_mul_right _ _ (Nat.pow_pos (by decide))]
  · exact Nat.zero_div _

/-- The integer of the code has the bits of the rule. -/
theorem frameInteger_lt : (frameInteger q range.rule).toNat < 2 ^ range.bits := by
  have positive : 0 < 2 ^ range.bits := Nat.pow_pos (by decide)
  cases order : range.little with
  | false =>
      rw [big_integer q range order]
      split
      · exact Nat.mod_lt _ positive
      · exact positive
  | true =>
      rw [little_integer q range order]
      split
      · have covers := bits_le_bytes range
        have bound := littleEndianValue_lt (bytesAt q range.idx range.bytes)
        rw [bytesAt_length, show 256 = 2 ^ 8 by rfl, ← Nat.pow_mul] at bound
        apply Nat.div_lt_of_lt_mul
        rwa [← Nat.pow_add, Nat.sub_add_cancel covers]
      · exact positive

/-- The comparison, whose sum wraps around. -/
theorem matches_iff (ztDest : Address) (superAccept : Bool) (rn : Nat) :
    ((matchRule q ztDest superAccept rn range.rule).1 ^^ range.rule.isNot) = true ↔
      range.start ≤ (frameInteger q range.rule).toNat ∧
        (frameInteger q range.rule).toNat ≤ range.last % 2 ^ 64 := by
  have small : range.rule.v.intRangeEnd.toNat < 2 ^ 64 := by
    have width := range.rule.v.intRangeEnd.isLt
    omega
  have found : (matchRule q ztDest superAccept rn range.rule).1 = matchIntegerRange q range.rule := by
    unfold matchRule
    rw [range.kind]
  rw [found, range.plain, Bool.xor_false, matchIntegerRange, decide_eq_true_eq, BitVec.le_def, BitVec.le_def,
    BitVec.toNat_add, BitVec.toNat_setWidth, Nat.mod_eq_of_lt small]
  rfl

theorem storedInteger_lt : storedInteger q range < 2 ^ range.bits := Nat.mod_lt _ (Nat.pow_pos (by decide))

theorem frameInteger_short (short : q.frameLen < range.idx + range.bytes) : (frameInteger q range.rule).toNat = 0 := by
  have small := bytes_le range
  cases order : range.little with
  | false => rw [big_integer q range order, if_neg (by omega)]
  | true => rw [little_integer q range order, if_neg (by omega)]

theorem frameInteger_atIndex (atIndex : range.AtIndex) (inside : range.idx + range.bytes ≤ q.frameLen) :
    (frameInteger q range.rule).toNat = storedInteger q range := by
  cases atIndex with
  | inl whole =>
      have bound := littleEndianValue_lt (bytesAt q range.idx range.bytes)
      rw [bytesAt_length, show 256 = 2 ^ 8 by rfl, ← Nat.pow_mul, ← whole.2] at bound
      rw [little_integer q range whole.1, if_pos inside, storedInteger, if_pos whole.1, Nat.mod_eq_of_lt bound,
        ← whole.2, Nat.sub_self, Nat.pow_zero, Nat.div_one]
  | inr eight =>
      have big : ¬ range.little = true := Bool.eq_false_iff.mp eight.1
      rw [big_integer q range eight.1, if_pos (by omega), storedInteger, if_neg big, eight.2, Nat.sub_self,
        Nat.add_zero]

theorem last_lt (zero : range.start = 0) : range.last < 2 ^ 64 := by
  have width := range.rule.v.intRangeEnd.isLt
  have sum : range.last = range.start + range.rule.v.intRangeEnd.toNat := rfl
  omega

/-- Where the rule is exact, the code computes the exact comparison. -/
theorem meets_of_exact (exact' : range.Exact q.frameLen) :
    (range.start ≤ (frameInteger q range.rule).toNat ∧ (frameInteger q range.rule).toNat ≤ range.last % 2 ^ 64) ↔
      Meets q range := by
  have code := frameInteger_lt q range
  have stored := storedInteger_lt q range
  unfold Meets
  rcases exact' with beyond | ⟨short, positive⟩ | ⟨inside, ⟨zero, full⟩ | ⟨atIndex, small⟩⟩
  · constructor
    · intro found
      omega
    · intro found
      omega
  · rw [frameInteger_short q range short]
    constructor
    · intro found
      omega
    · intro found
      omega
  · rw [Nat.mod_eq_of_lt (last_lt range zero)]
    constructor
    · intro found
      omega
    · intro found
      omega
  · rw [frameInteger_atIndex q range atIndex inside, Nat.mod_eq_of_lt small]
    exact ⟨fun found => ⟨inside, found⟩, fun found => found.2⟩

end Code

section Frames

/-- A frame with given bytes at a position. -/
def frameOf (frameLen position : Nat) (bytes : List Byte) : FilterInput where
  identity := 7
  nconf := .nil
  membership := none
  inbound := true
  ztSource := 9
  macSource := 0
  macDest := 0
  frameData := fun i => bytes.getD (i - position) 0
  frameLen := frameLen
  etherType := 0x0800
  vlanId := 0
  prng := fun _ => 0

theorem frameOf_frameLen (frameLen position : Nat) (bytes : List Byte) :
    (frameOf frameLen position bytes).frameLen = frameLen := rfl

theorem bytesAt_frameOf (frameLen position : Nat) (bytes : List Byte) :
    bytesAt (frameOf frameLen position bytes) position bytes.length = bytes := by
  unfold bytesAt
  apply List.ext_getElem
  · rw [List.length_map, List.length_range]
  · intro i _ inside
    rw [List.getElem_map, List.getElem_range]
    change bytes.getD (position + i - position) 0 = _
    rw [Nat.add_sub_cancel_left, List.getD_eq_getElem?_getD, List.getElem?_eq_getElem inside, Option.getD_some]

theorem bytesAt_bigEndian (frameLen position count value : Nat) :
    bytesAt (frameOf frameLen position (bigEndian count value)) position count = bigEndian count value := by
  have read := bytesAt_frameOf frameLen position (bigEndian count value)
  rwa [bigEndian_length] at read

theorem bytesAt_littleEndian (frameLen position count value : Nat) :
    bytesAt (frameOf frameLen position (bigEndian count value).reverse) position count =
      (bigEndian count value).reverse := by
  have read := bytesAt_frameOf frameLen position (bigEndian count value).reverse
  rwa [List.length_reverse, bigEndian_length] at read

variable (range : RangeRule)

theorem pow_bits_le : 2 ^ range.bits ≤ 256 ^ range.bytes := by
  calc 2 ^ range.bits ≤ 2 ^ (8 * range.bytes) := Nat.pow_le_pow_right (by decide) (bits_le_bytes range)
    _ = 256 ^ range.bytes := by rw [Nat.pow_mul]

/-- Every value of the bits is stored in some frame. -/
theorem exists_stored (frameLen : Nat) {value : Nat} (small : value < 2 ^ range.bits) :
    ∃ q : FilterInput, q.frameLen = frameLen ∧ storedInteger q range = value := by
  have fits := Nat.lt_of_lt_of_le small (pow_bits_le range)
  cases order : range.little with
  | false =>
      refine ⟨frameOf frameLen range.idx (bigEndian range.bytes value), rfl, ?_⟩
      rw [storedInteger, if_neg (by rw [order]; exact Bool.false_ne_true), bytesAt_bigEndian, bigEndianValue_bigEndian,
        Nat.mod_eq_of_lt fits, Nat.mod_eq_of_lt small]
  | true =>
      refine ⟨frameOf frameLen range.idx (bigEndian range.bytes value).reverse, rfl, ?_⟩
      rw [storedInteger, if_pos order, bytesAt_littleEndian, littleEndianValue_reverse, Nat.mod_eq_of_lt fits,
        Nat.mod_eq_of_lt small]

/-- A frame tells the code from the rule. -/
def Detects (q : FilterInput) : Prop :=
  ¬ ((range.start ≤ (frameInteger q range.rule).toNat ∧ (frameInteger q range.rule).toNat ≤ range.last) ↔ Meets q range)

variable {range} {frameLen : Nat}

/-- Little-endian with a byte that is cut, the code takes the high bits. -/
theorem little_detected (order : range.little = true) (cut : range.bits ≠ 8 * range.bytes)
    (inside : range.idx + range.bytes ≤ frameLen) (some' : range.start < 2 ^ range.bits)
    (proper : ¬ (range.start = 0 ∧ 2 ^ range.bits - 1 ≤ range.last)) :
    ∃ q : FilterInput, q.frameLen = frameLen ∧ Detects range q := by
  have covers := bits_le_bytes range
  have unit : 2 ≤ 2 ^ (8 * range.bytes - range.bits) := by
    calc 2 = 2 ^ 1 := rfl
      _ ≤ 2 ^ (8 * range.bytes - range.bits) := Nat.pow_le_pow_right (by decide) (by omega)
  have room : 2 ^ range.bits * 2 ^ (8 * range.bytes - range.bits) = 256 ^ range.bytes := by
    rw [← Nat.pow_add, Nat.add_sub_of_le covers, Nat.pow_mul]
  obtain ⟨number, small, shown⟩ := parts_detect unit some' (Nat.le_add_right _ _) proper
  rw [room] at small
  have high : number / 2 ^ (8 * range.bytes - range.bits) < 2 ^ range.bits := by
    apply Nat.div_lt_of_lt_mul
    rwa [Nat.mul_comm, room]
  have stored : storedInteger (frameOf frameLen range.idx (bigEndian range.bytes number).reverse) range =
      number % 2 ^ range.bits := by
    rw [storedInteger, if_pos order, bytesAt_littleEndian, littleEndianValue_reverse, Nat.mod_eq_of_lt small]
  have code : (frameInteger (frameOf frameLen range.idx (bigEndian range.bytes number).reverse) range.rule).toNat =
      number / 2 ^ (8 * range.bytes - range.bits) := by
    rw [little_integer _ range order, frameOf_frameLen, if_pos inside, bytesAt_littleEndian, littleEndianValue_reverse,
      Nat.mod_eq_of_lt small]
  rw [Nat.mod_eq_of_lt high] at shown
  refine ⟨frameOf frameLen range.idx (bigEndian range.bytes number).reverse, rfl, ?_⟩
  rw [Detects, Meets, stored, code]
  intro same
  exact shown ⟨fun low => same.mpr ⟨inside, low⟩, fun found => (same.mp found).2⟩

/-- Big-endian with fewer than eight bytes, the code takes bytes behind those at the index. -/
theorem big_detected (order : range.little = false) (fewer : range.bytes < 8) (whole : range.idx + 8 ≤ frameLen)
    (some' : range.start < 2 ^ range.bits) (proper : ¬ (range.start = 0 ∧ 2 ^ range.bits - 1 ≤ range.last)) :
    ∃ q : FilterInput, q.frameLen = frameLen ∧ Detects range q := by
  have big : ¬ range.little = true := Bool.eq_false_iff.mp order
  have short := bytes_le range
  have unit : 2 ≤ 256 ^ (8 - range.bytes) := by
    calc 2 ≤ 256 ^ 1 := by decide
      _ ≤ 256 ^ (8 - range.bytes) := Nat.pow_le_pow_right (by decide) (by omega)
  have room : 2 ^ range.bits * 256 ^ (8 - range.bytes) ≤ 256 ^ 8 := by
    calc 2 ^ range.bits * 256 ^ (8 - range.bytes) ≤ 256 ^ range.bytes * 256 ^ (8 - range.bytes) :=
          Nat.mul_le_mul_right _ (pow_bits_le range)
      _ = 256 ^ 8 := by rw [← Nat.pow_add, Nat.add_sub_of_le short]
  obtain ⟨number, small, shown⟩ := parts_detect unit some' (Nat.le_add_right _ _) proper
  have all := bytesAt_bigEndian frameLen range.idx 8 number
  have total := bigEndianValue_bigEndian 8 number
  rw [Nat.mod_eq_of_lt (Nat.lt_of_lt_of_le small room)] at total
  have stored : storedInteger (frameOf frameLen range.idx (bigEndian 8 number)) range =
      number / 256 ^ (8 - range.bytes) % 2 ^ range.bits := by
    rw [storedInteger, if_neg big, bigEndianValue_first _ range.idx range.bytes (8 - range.bytes),
      Nat.add_sub_of_le short, all, total]
  have code : (frameInteger (frameOf frameLen range.idx (bigEndian 8 number)) range.rule).toNat =
      number % 2 ^ range.bits := by
    have divides : 2 ^ range.bits ∣ 256 ^ range.bytes := by
      rw [show 256 = 2 ^ 8 by rfl, ← Nat.pow_mul]
      exact Nat.pow_dvd_pow 2 (bits_le_bytes range)
    rw [big_integer _ range order, frameOf_frameLen, if_pos whole,
      bigEndianValue_last _ range.idx (8 - range.bytes) range.bytes, Nat.sub_add_cancel short, all, total,
      Nat.mod_mod_of_dvd _ divides]
  refine ⟨frameOf frameLen range.idx (bigEndian 8 number), rfl, ?_⟩
  rw [Detects, Meets, stored, code, frameOf_frameLen]
  intro same
  exact shown ⟨fun low => (same.mp low).2, fun found => same.mpr ⟨by omega, found⟩⟩

/-- Big-endian with fewer than eight bytes, an integer that fits is taken for 0 where those do not. -/
theorem big_cut_detected (order : range.little = false) (cut : ¬ range.idx + 8 ≤ frameLen)
    (inside : range.idx + range.bytes ≤ frameLen) (some' : range.start < 2 ^ range.bits)
    (proper : ¬ (range.start = 0 ∧ 2 ^ range.bits - 1 ≤ range.last)) :
    ∃ q : FilterInput, q.frameLen = frameLen ∧ Detects range q := by
  have zero (q : FilterInput) (length : q.frameLen = frameLen) : (frameInteger q range.rule).toNat = 0 := by
    rw [big_integer q range order, length, if_neg cut]
  by_cases first : range.start = 0
  · have left : range.last < 2 ^ range.bits - 1 := Nat.lt_of_not_le fun full => proper ⟨first, full⟩
    obtain ⟨q, length, stored⟩ := exists_stored range frameLen (show 2 ^ range.bits - 1 < 2 ^ range.bits by omega)
    refine ⟨q, length, ?_⟩
    rw [Detects, Meets, zero q length, stored]
    intro same
    have wrong := (same.mp ⟨by omega, by omega⟩).2.2
    omega
  · obtain ⟨q, length, stored⟩ := exists_stored range frameLen some'
    refine ⟨q, length, ?_⟩
    rw [Detects, Meets, zero q length, stored, length]
    intro same
    have wrong := (same.mpr ⟨inside, Nat.le_refl _, Nat.le_add_right _ _⟩).1
    omega

/-- Where the code reads other bits than those at the index, some frame shows it. -/
theorem apart_detected (apart : ¬ range.AtIndex) (inside : range.idx + range.bytes ≤ frameLen)
    (some' : range.start < 2 ^ range.bits) (proper : ¬ (range.start = 0 ∧ 2 ^ range.bits - 1 ≤ range.last)) :
    ∃ q : FilterInput, q.frameLen = frameLen ∧ Detects range q := by
  cases order : range.little with
  | true => exact little_detected order (fun whole => apart (.inl ⟨order, whole⟩)) inside some' proper
  | false =>
      have short := bytes_le range
      have fewer : range.bytes < 8 := by
        have cut : range.bytes ≠ 8 := fun eight => apart (.inr ⟨order, eight⟩)
        omega
      by_cases whole : range.idx + 8 ≤ frameLen
      · exact big_detected order fewer whole some' proper
      · exact big_cut_detected order whole inside some' proper

/-- A range whose end wraps around is one of 64 bits, and does not match its own start. -/
theorem wrapped_detected (some' : range.start < 2 ^ range.bits) (inside : range.idx + range.bytes ≤ frameLen)
    (wraps : 2 ^ 64 ≤ range.last) :
    ∃ q : FilterInput, q.frameLen = frameLen ∧
      ¬ ((range.start ≤ (frameInteger q range.rule).toNat ∧ (frameInteger q range.rule).toNat ≤ range.last % 2 ^ 64) ↔
        Meets q range) := by
  have width := range.rule.v.intRangeEnd.isLt
  have small := range.rule.v.intRangeStart.isLt
  have sum : range.last = range.start + range.rule.v.intRangeEnd.toNat := rfl
  have start : range.start = range.rule.v.intRangeStart.toNat := rfl
  have bits : range.bits = 64 := by
    have above : 63 < range.bits := (Nat.pow_lt_pow_iff_right (by decide)).mp (show 2 ^ 63 < 2 ^ range.bits by omega)
    have most := bits_le range
    omega
  have eight : range.bytes = 8 := by
    rw [RangeRule.bytes, bits]
  have atIndex : range.AtIndex := by
    cases order : range.little with
    | true => exact .inl ⟨order, by rw [bits, eight]⟩
    | false => exact .inr ⟨order, eight⟩
  obtain ⟨q, length, stored⟩ := exists_stored range frameLen some'
  refine ⟨q, length, ?_⟩
  rw [frameInteger_atIndex q range atIndex (length ▸ inside), Meets, stored, length]
  intro same
  have wrong := (same.mpr ⟨inside, Nat.le_refl _, by omega⟩).2
  omega

end Frames

/-- The match of an integer range is exact on the frames of a length precisely under the condition
`RangeRule.Exact` on the rule and the length. -/
theorem integer_range_iff (range : RangeRule) (frameLen : Nat) :
    (∀ q : FilterInput, q.frameLen = frameLen → ∀ ztDest superAccept rn,
      (((matchRule q ztDest superAccept rn range.rule).1 ^^ range.rule.isNot) = true ↔ Meets q range)) ↔
      range.Exact frameLen := by
  simp only [matches_iff]
  constructor
  · intro right
    by_contra inexact
    have alike (q : FilterInput) (length : q.frameLen = frameLen) := right q length 0 false 0
    have some' : range.start < 2 ^ range.bits := Nat.lt_of_not_le fun beyond => inexact (.inl beyond)
    by_cases inside : range.idx + range.bytes ≤ frameLen
    · have proper : ¬ (range.start = 0 ∧ 2 ^ range.bits - 1 ≤ range.last) :=
        fun full => inexact (.inr (.inr ⟨inside, .inl full⟩))
      by_cases wraps : 2 ^ 64 ≤ range.last
      · obtain ⟨q, length, detected⟩ := wrapped_detected some' inside wraps
        exact detected (alike q length)
      · have small : range.last < 2 ^ 64 := Nat.lt_of_not_le wraps
        have apart : ¬ range.AtIndex := fun atIndex => inexact (.inr (.inr ⟨inside, .inr ⟨atIndex, small⟩⟩))
        obtain ⟨q, length, detected⟩ := apart_detected apart inside some' proper
        have same := alike q length
        rw [Nat.mod_eq_of_lt small] at same
        exact detected same
    · -- an integer that does not fit is taken for 0
      have zero : range.start = 0 := by
        by_contra positive
        exact inexact (.inr (.inl ⟨Nat.lt_of_not_le inside, positive⟩))
      have length : (frameOf frameLen 0 []).frameLen = frameLen := rfl
      have same := alike (frameOf frameLen 0 []) length
      rw [frameInteger_short _ range (by rw [length]; omega), zero] at same
      exact inside (same.mp ⟨Nat.le_refl _, Nat.zero_le _⟩).1
  · intro exact' q length ztDest superAccept rn
    exact meets_of_exact q range (length ▸ exact')

/-- A match of a byte that is zero. -/
def zeroByte : RangeRule := ⟨⟨51, { intRangeIdx := 40, intRangeFormat := 7 }⟩, by decide, by decide⟩

/-- A byte behind the end of a frame of 28 bytes is taken for zero. -/
theorem short_frame_matches :
    ¬ ∀ (range : RangeRule) (q : FilterInput) (ztDest : Address) (superAccept : Bool) (rn : Nat),
      ((matchRule q ztDest superAccept rn range.rule).1 ^^ range.rule.isNot) = true ↔ Meets q range := by
  intro right
  have matched : ((matchRule (frameOf 28 0 []) 0 false 0 zeroByte.rule).1 ^^ zeroByte.rule.isNot) = true := by decide
  have inside : 40 + 1 ≤ 28 := ((right zeroByte (frameOf 28 0 []) 0 false 0).mp matched).1
  omega

end ZeroTierNode.IntegerRanges
