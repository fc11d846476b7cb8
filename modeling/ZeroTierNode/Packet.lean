import Mathlib.Data.List.GetD
import ZeroTierNode.Address

/-!
Packets and packet fragments as byte strings. The accessors are total: a packet
held by the node is never shorter than its header, and a fragment's header lies
inside every datagram that is taken for one.
-/

namespace ZeroTierNode.Packet
open Library.Bytes

/-- `ZT_PROTO_MAX_PACKET_LENGTH`: `ZT_MAX_PACKET_FRAGMENTS` times `ZT_DEFAULT_PHYSMTU`. -/
abbrev maxPacketLength : Nat := 10024

/-- `ZT_PROTO_MIN_PACKET_LENGTH`. -/
abbrev minPacketLength : Nat := 28

/-- `ZT_PROTO_MIN_FRAGMENT_LENGTH`. -/
abbrev minFragmentLength : Nat := 16

/-- `ZT_MAX_PACKET_FRAGMENTS`. -/
abbrev maxPacketFragments : Nat := 7

def byteAt (data : List Byte) (i : Nat) : Byte := data.getD i 0

def fieldAt (data : List Byte) (start count : Nat) : List Byte := (data.drop start).take count

def packetId (data : List Byte) : BitVec 64 := wordOf 64 (fieldAt data 0 8)

def destination (data : List Byte) : Address := wordOf 40 (fieldAt data 8 5)

def source (data : List Byte) : Address := wordOf 40 (fieldAt data 13 5)

/-- The flags octet: `FFCCCHHH`. -/
def flags (data : List Byte) : Byte := byteAt data 18

/-- Flag `ZT_PROTO_FLAG_FRAGMENTED`. -/
def fragmented (data : List Byte) : Bool := flags data &&& 0x40 ≠ 0

def cipher (data : List Byte) : Byte := (flags data &&& 0x38) >>> 3

/-- The MAC field read as a trusted path id. -/
def trustedPathId (data : List Byte) : BitVec 64 := wordOf 64 (fieldAt data 19 8)

def verb (data : List Byte) : Byte := byteAt data 27 &&& 0x1f

/-- Flag `ZT_PROTO_VERB_FLAG_COMPRESSED`. -/
def compressed (data : List Byte) : Bool := byteAt data 27 &&& 0x80 ≠ 0

/-- `uncompress` with `LZ4_decompress_safe` as `lz4`; `none` when it reports failure. -/
def uncompress (lz4 : List Byte → Option (List Byte)) (data : List Byte) : Option (List Byte) :=
  if compressed data ∧ minPacketLength ≤ data.length then
    let clearVerb := (byteAt data 27) &&& 0x7f
    if 28 < data.length then
      match lz4 (data.drop 28) with
      | some payload =>
          if 0 < payload.length ∧ payload.length ≤ maxPacketLength - 28 then
            some (data.take 27 ++ clearVerb :: payload)
          else none
      | none => none
    else some (data.take 27 ++ [clearVerb])
  else some data

/-- `compress` with the output of `LZ4_compress_fast` as `lz4`. Small packets, and those that would not shrink, stay
as they are. -/
def compress (lz4 : List Byte → List Byte) (data : List Byte) : List Byte :=
  let plain := data.take 27 ++ (byteAt data 27 &&& 0x7f) :: data.drop 28
  if ¬compressed data ∧ 28 + 64 < data.length then
    let packed := lz4 (data.drop 28)
    if 0 < packed.length ∧ packed.length < data.length - 28 then
      data.take 27 ++ (byteAt data 27 ||| 0x80) :: packed
    else plain
  else plain

/-- Byte 13 is 0xff in a fragment, where a packet has its source address. -/
def isFragment (data : List Byte) : Bool := byteAt data 13 = 0xff

def fragmentNumber (fragment : List Byte) : Nat := (byteAt fragment 14 &&& 0xf).toNat

def totalFragments (fragment : List Byte) : Nat := (byteAt fragment 14 >>> 4).toNat

def payload (fragment : List Byte) : List Byte := fragment.drop 16

section Verb

variable {data : List Byte}

/-- A packet that is not compressed keeps its verb. -/
theorem verb_clear (plain : compressed data = false) : byteAt data 27 &&& 0x7f = byteAt data 27 := by
  have flag : byteAt data 27 &&& 0x80 = 0 := by
    rw [compressed] at plain
    simpa using plain
  generalize byteAt data 27 = verb at flag ⊢
  revert verb
  decide

variable (header : 28 ≤ data.length)
include header

theorem length_before_verb : (data.take 27).length = 27 := by
  rw [List.length_take]
  omega

theorem length_with_verb (verb : Byte) (payload : List Byte) :
    (data.take 27 ++ verb :: payload).length = 28 + payload.length := by
  rw [List.length_append, List.length_take, List.length_cons]
  omega

theorem byteAt_with_verb (verb : Byte) (payload : List Byte) : byteAt (data.take 27 ++ verb :: payload) 27 = verb := by
  have position := length_before_verb header
  rw [byteAt, List.getD_append_right _ _ _ _ (by omega), position]
  rfl

theorem take_with_verb (verb : Byte) (payload : List Byte) :
    (data.take 27 ++ verb :: payload).take 27 = data.take 27 := by
  rw [List.take_append_of_le_length (length_before_verb header).ge, List.take_take]
  rfl

theorem drop_with_verb (verb : Byte) (payload : List Byte) : (data.take 27 ++ verb :: payload).drop 28 = payload := by
  have position : (data.take 27 ++ [verb]).length = 28 := by
    rw [List.length_append, List.length_take, List.length_singleton]
    omega
  rw [← List.singleton_append, ← List.append_assoc, List.drop_append_of_le_length (by omega),
    List.drop_of_length_le (by omega), List.nil_append]

theorem split_at_verb : data.take 27 ++ byteAt data 27 :: data.drop 28 = data := by
  have verb : data.drop 27 = byteAt data 27 :: data.drop 28 := by
    rw [List.drop_eq_getElem_cons (by omega), byteAt, List.getD_eq_getElem _ _ (by omega)]
  rw [← verb, List.take_append_drop]

theorem plain_of_cleared (payload : List Byte) :
    compressed (data.take 27 ++ (byteAt data 27 &&& 0x7f) :: payload) = false := by
  rw [compressed, byteAt_with_verb header, BitVec.and_assoc]
  simp

theorem compressed_of_flagged (payload : List Byte) :
    compressed (data.take 27 ++ (byteAt data 27 ||| 0x80) :: payload) = true := by
  rw [compressed, byteAt_with_verb header]
  generalize byteAt data 27 = verb
  revert verb
  decide

end Verb

/-- Once uncompressed, a packet is left as it is. -/
theorem uncompress_idempotent (lz4 : List Byte → Option (List Byte)) {data plain : List Byte}
    (first : uncompress lz4 data = some plain) (again : List Byte → Option (List Byte)) :
    uncompress again plain = some plain := by
  unfold uncompress at first
  split at first
  · rename_i packed
    dsimp only at first
    split at first
    · split at first
      · split at first
        · cases first
          rw [uncompress, plain_of_cleared packed.2, if_neg (by simp)]
        · cases first
      · cases first
    · cases first
      rw [uncompress, plain_of_cleared packed.2, if_neg (by simp)]
  · rename_i plainData
    cases first
    by_cases flag : compressed data = true
    · rw [uncompress, if_neg plainData]
    · rw [uncompress, if_neg (by simp [flag])]

/-- Decompression starts behind the packet id. -/
theorem uncompress_packetId {lz4 : List Byte → Option (List Byte)} {data plain : List Byte}
    (opened : uncompress lz4 data = some plain) : packetId plain = packetId data := by
  have header (rest : List Byte) (long : 28 ≤ data.length) :
      packetId (data.take 27 ++ rest) = packetId data := by
    have position := length_before_verb long
    rw [packetId, packetId, fieldAt, fieldAt, List.drop_zero, List.drop_zero,
      List.take_append_of_le_length (by omega), List.take_take, Nat.min_eq_left (by decide)]
  unfold uncompress at opened
  split at opened
  · rename_i packed
    dsimp only at opened
    split at opened
    · split at opened
      · split at opened
        · cases opened
          exact header _ packed.2
        · cases opened
      · cases opened
    · cases opened
      exact header _ packed.2
  · cases opened
    rfl

section Compression

variable {data : List Byte} (header : 28 ≤ data.length) (plain : compressed data = false)
include header plain

theorem compress_length_le (lz4 : List Byte → List Byte) : (compress lz4 data).length ≤ data.length := by
  rw [compress]
  dsimp only
  rw [verb_clear plain, split_at_verb header]
  split
  · split
    · rename_i shrinks
      rw [length_with_verb header]
      omega
    · exact Nat.le_refl _
  · exact Nat.le_refl _

/-- What was compressed is uncompressed to what it was. -/
theorem uncompress_compress {pack : List Byte → List Byte} {unpack : List Byte → Option (List Byte)}
    (fits : data.length ≤ maxPacketLength) (inverse : unpack (pack (data.drop 28)) = some (data.drop 28)) :
    uncompress unpack (compress pack data) = some data := by
  have untouched : uncompress unpack data = some data := by
    rw [uncompress, plain, if_neg (by simp)]
  rw [compress]
  dsimp only
  rw [verb_clear plain, split_at_verb header]
  split
  · rename_i long
    split
    · rename_i shrinks
      have flag := compressed_of_flagged header (pack (data.drop 28))
      have size := length_with_verb header (byteAt data 27 ||| 0x80) (pack (data.drop 28))
      have payload : (data.drop 28).length = data.length - 28 := List.length_drop
      rw [uncompress, flag, if_pos ⟨rfl, by unfold minPacketLength; omega⟩]
      dsimp only
      rw [if_pos (by omega), drop_with_verb header, inverse]
      dsimp only
      rw [if_pos ⟨by omega, by omega⟩, take_with_verb header, byteAt_with_verb header]
      have cleared : (byteAt data 27 ||| 0x80) &&& 0x7f = byteAt data 27 := by
        rw [← verb_clear plain]
        generalize byteAt data 27 = verb
        revert verb
        decide
      rw [cleared, split_at_verb header]
    · exact untouched
  · exact untouched

end Compression

end ZeroTierNode.Packet
