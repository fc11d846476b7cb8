import ZeroTierNode.Compression
import ZeroTierNode.Lz4Compress

/-!
A packet's compression with LZ4 itself: `Packet::compress` and `Packet::uncompress` with their buffers on the stack,
which begin with whatever was there.
-/

namespace ZeroTierNode.Lz4Packets
open Library.Bytes Library.StreamBuffers Library.BackReferences Library.CheckedCode Lz4Blocks Lz4Compress Lz4Decompress
open Packet Compression
open CredentialDelivery (Inverse)

/-- Where a packet's payload and the buffer of `uncompress` lie in the address space: not in its first 64 KB and not in
its last 8 MB, so that no pointer wraps. -/
structure Addresses where
  payloadAt : Nat
  bufAt : Nat
  payloadRoom : 2 ^ 16 ≤ payloadAt ∧ payloadAt + 2 ^ 23 ≤ 2 ^ 32
  bufRoom : 2 ^ 16 ≤ bufAt ∧ bufAt + 2 ^ 23 ≤ 2 ^ 32

/-- `LZ4_compress_fast` into the buffer of `compress`. -/
def pack (m : Memory) (payload : List Byte) : List Byte :=
  ((compressGeneric payload (2 * maxPacketLength)).run m).elim [] fun r => firstBytes r.2 r.1

theorem maxPacketLength_eq : maxPacketLength = 10024 := by decide

/-- The buffers of the call that `uncompress` makes. -/
def Addresses.buffers (places : Addresses) (payload : List Byte) (room : payload.length ≤ 2 * maxPacketLength) :
    Buffers where
  source := payload
  sourceAt := places.payloadAt
  destAt := places.bufAt
  size := maxPacketLength
  sourceRoom := by
    have limit := maxPacketLength_eq
    have placed := places.payloadRoom
    omega
  destRoom := by
    have limit := maxPacketLength_eq
    have placed := places.bufRoom
    omega
  ints := by
    have limit := maxPacketLength_eq
    omega

/-- `LZ4_decompress_safe` into the buffer of `uncompress`. -/
def unpack (places : Addresses) (m : Memory) (payload : List Byte) : Option (List Byte) :=
  if room : payload.length ≤ 2 * maxPacketLength then
    ((decompressSafe (places.buffers payload room)).run m).bind fun r =>
      if 0 ≤ r.1 then some (firstBytes r.2 r.1.toNat) else none
  else none

section Packing

variable {places : Addresses} {m blank : Memory} {payload : List Byte}

theorem clear_buffers (places : Addresses) (room : payload.length ≤ 2 * maxPacketLength) :
    Clear (places.buffers payload room) := by
  have limit := maxPacketLength_eq
  have payloadRoom := places.payloadRoom
  have bufRoom := places.bufRoom
  refine ⟨bufRoom.1, ?_, ?_⟩
  · show places.payloadAt + 256 * payload.length + 16 < 2 ^ 32
    omega
  · show places.bufAt + maxPacketLength + 255 * payload.length + 20 < 2 ^ 32
    omega

/-- What is unpacked depends neither on what the stack has nor on the addresses. -/
theorem unpack_plain (room : payload.length ≤ 2 * maxPacketLength) :
    unpack places m payload = plainDecode maxPacketLength (payload.length + 1) payload [] := by
  rw [unpack, dif_pos room]
  have clear := clear_buffers places room
  generalize made : places.buffers payload room = b at clear ⊢
  have source : b.source = payload := by rw [← made]; rfl
  have size : b.size = maxPacketLength := by rw [← made]; rfl
  have output : 0 < b.size := by rw [size]; decide
  rw [← source, ← size]
  by_cases readable : Readable b
  · obtain ⟨result, left, ran, agrees⟩ := meets_decompressSafe (m := m) output readable (.inl clear)
    rw [ran, Option.bind_some]
    dsimp only
    rcases agrees with ⟨out, plain, length, begins⟩ | ⟨none', negative⟩
    · rw [if_pos (by omega), plain, length, Int.toNat_natCast, begins_firstBytes begins]
    · rw [if_neg (by omega), none']
  · have stopped : (decompressSafe b).run m = none := by
      rw [← Option.not_isSome_iff_eq_none]
      exact fun ran => readable (readable_of_run ran)
    rw [stopped, Option.bind_none]
    -- without a token, or without the length that the token asks for
    simp only [Readable, not_or] at readable
    obtain ⟨-, short, high⟩ := readable
    cases shape : b.source with
    | nil => rfl
    | cons token rest =>
        have alone : rest = [] := by
          rw [shape, List.length_cons] at short
          exact List.eq_nil_of_length_eq_zero (by omega)
        have full : token.toNat / 16 = 15 := by
          have byte : token.toNat < 2 ^ 8 := token.isLt
          have large : ¬token.toNat < 0xf0 := fun less => high ⟨token, by rw [shape, alone], less⟩
          omega
        rw [alone, plainDecode, lengthField, if_pos full]
        rfl

theorem pack_packed (fits : payload.length ≤ maxPacketLength) :
    ∃ k left, pack m payload = firstBytes left k ∧ Packed payload k left := by
  have limit := maxPacketLength_eq
  have bound : compressBound payload.length ≤ 2 * maxPacketLength := by
    rw [compressBound, if_neg (by omega)]
    omega
  obtain ⟨k, left, ran, packed⟩ := meets_compressGeneric (m := m) (by omega) bound
  exact ⟨k, left, by rw [pack, ran, Option.elim_some], packed⟩

theorem pack_inverse (places : Addresses) (m blank : Memory) : Inverse (pack m) (unpack places blank) := by
  intro payload fits
  have limit := maxPacketLength_eq
  obtain ⟨k, left, same, packed⟩ : ∃ k left, pack m payload = firstBytes left k ∧ Packed payload k left :=
    pack_packed (by omega)
  have bounds := size_of_packed packed
  obtain ⟨bytes, text, last, whole, encodes, ends, reached, begins⟩ := packed
  have block : firstBytes left k = bytes ++ lastBytes last := by rw [reached, begins_firstBytes begins]
  have length : text.length + last.length = payload.length := by rw [← whole, List.length_append]
  rw [same, block, unpack_plain (by rw [← reached]; omega),
    plainDecode_block (by omega) encodes length ends (Nat.lt_succ_self _), whole]

/-- A plain packet that is compressed does not get longer and is restored by `uncompress`, whatever their buffers begin
with; and what `uncompress` makes of any packet does not depend on them. -/
theorem compress_restored (places : Addresses) (m blank : Memory) {data : List Byte} (header : 28 ≤ data.length)
    (fits : data.length ≤ maxPacketLength) (plain : compressed data = false) :
    (compress (pack m) data).length ≤ data.length ∧
      uncompressAny (unpack places blank) (compress (pack m) data) = .returned true data ∧
      ∀ received : List Byte, received.length ≤ maxPacketLength → ∀ (others : Addresses) (other : Memory),
        uncompressAny (unpack others other) received = uncompressAny (unpack places blank) received := by
  refine ⟨?_, uncompressAny_compress (pack_inverse places m blank) header fits plain, ?_⟩
  · by_cases shrinks : Shrinks (pack m) data
    · have less := shrinks.2.2
      rw [compress_shrinks plain shrinks, length_with_verb header]
      omega
    · rw [compress_grows header plain shrinks]
  · intro received small others other
    have same : unpack others other (received.drop 28) = unpack places blank (received.drop 28) := by
      have length : (received.drop 28).length ≤ 2 * maxPacketLength := by
        rw [List.length_drop]
        omega
      rw [unpack_plain length, unpack_plain length]
    rw [uncompressAny, uncompressAny, uncompress, uncompress, same]

end Packing

/-- A NOP with a payload of zeros. -/
theorem compress_restored_zeros : ∃ places : Addresses,
    28 ≤ zerosPacket.length ∧ (compress (pack fun _ => 1) zerosPacket).length ≤ zerosPacket.length ∧
      uncompressAny (unpack places fun _ => 2) (compress (pack fun _ => 1) zerosPacket) = .returned true zerosPacket := by
  refine ⟨⟨0x3ffb0000, 0x3ffc0000, by decide, by decide⟩, by decide, ?_⟩
  have restored := compress_restored ⟨0x3ffb0000, 0x3ffc0000, by decide, by decide⟩ (fun _ => 1) (fun _ => 2)
    (by decide : 28 ≤ zerosPacket.length) (by decide) (by decide)
  exact ⟨restored.1, restored.2.1⟩

end ZeroTierNode.Lz4Packets
