import Mathlib.Logic.Function.Iterate
import ZeroTierNode.CredentialDelivery

/-!
Compression of a packet's payload, called any number of times. `compress` has one way
out for packets it does not compress, and that way clears the flag: a packet that is
compressed already keeps its compressed payload and loses the flag that says so.
-/

namespace ZeroTierNode.Compression
open Library.Bytes Packet
open CredentialDelivery (Inverse)

/-- How a call of `Packet::uncompress` ends. -/
inductive Outcome where
  /-- `ZT_EXCEPTION_OUT_OF_BOUNDS` -/
  | thrown
  | returned (result : Bool) (left : List Byte)
  deriving Repr, DecidableEq

/-- `Packet::uncompress` on any content of the buffer: `compressed()` throws where there is no verb to read, and a
payload that does not decompress leaves the packet as it came. -/
def uncompressAny (lz4 : List Byte → Option (List Byte)) (data : List Byte) : Outcome :=
  if data.length ≤ 27 then .thrown
  else
    match uncompress lz4 data with
    | some plain => .returned true plain
    | none => .returned false data

/-- The payload is long enough to be compressed, and gets shorter by it. -/
def Shrinks (pack : List Byte → List Byte) (data : List Byte) : Prop :=
  28 + 64 < data.length ∧ 0 < (pack (data.drop 28)).length ∧ (pack (data.drop 28)).length < data.length - 28

instance decidableShrinks (pack : List Byte → List Byte) (data : List Byte) : Decidable (Shrinks pack data) :=
  inferInstanceAs (Decidable (_ ∧ _ ∧ _))

/-- `uncompress` returns true on `sent` and leaves verb, payload and size of `data`. -/
def Restores (unpack : List Byte → Option (List Byte)) (sent data : List Byte) : Prop :=
  ∃ plain : List Byte, uncompressAny unpack sent = .returned true plain ∧
    verb plain = verb data ∧ plain.drop 28 = data.drop 28 ∧ plain.length = data.length

section Compress

variable {pack : List Byte → List Byte} {data : List Byte}

/-- The common way out of `compress`. -/
def unflagged (data : List Byte) : List Byte := data.take 27 ++ (byteAt data 27 &&& 0x7f) :: data.drop 28

theorem compress_shrinks (plain : compressed data = false) (shrinks : Shrinks pack data) :
    compress pack data = data.take 27 ++ (byteAt data 27 ||| 0x80) :: pack (data.drop 28) := by
  have flag : ¬compressed data := by simp [plain]
  rw [compress]
  dsimp only
  rw [if_pos ⟨flag, shrinks.1⟩, if_pos shrinks.2]

theorem compress_flagged (flag : compressed data = true) : compress pack data = unflagged data := by
  rw [compress]
  dsimp only
  rw [if_neg (by simp [flag]), unflagged]

variable (header : 28 ≤ data.length)
include header

theorem compress_grows (plain : compressed data = false) (grows : ¬Shrinks pack data) :
    compress pack data = data := by
  have same : unflagged data = data := by
    rw [unflagged, verb_clear plain, split_at_verb header]
  rw [compress]
  dsimp only
  split
  · rename_i long
    rw [if_neg fun shorter => grows ⟨long.2, shorter⟩]
    exact same
  · exact same

theorem unflagged_plain : compressed (unflagged data) = false := plain_of_cleared header _

theorem length_unflagged : (unflagged data).length = data.length := by
  rw [unflagged, length_with_verb header, List.length_drop]
  omega

/-- Compressed a second time, a packet keeps its compressed payload and is not marked any more. -/
theorem compress_again (plain : compressed data = false) (shrinks : Shrinks pack data) :
    ∃ shorter : List Byte, compress pack (compress pack data) = shorter ∧ compressed shorter = false ∧
      28 ≤ shorter.length ∧ shorter.length < data.length := by
  have once := compress_shrinks plain shrinks
  have size : (compress pack data).length = 28 + (pack (data.drop 28)).length := by
    rw [once, length_with_verb header]
  have flag : compressed (compress pack data) = true := by
    rw [once]
    exact compressed_of_flagged header _
  have long : 28 ≤ (compress pack data).length := by omega
  have less := shrinks.2.2
  refine ⟨unflagged (compress pack data), compress_flagged flag, unflagged_plain long, ?_, ?_⟩
  · rw [length_unflagged long]
    omega
  · rw [length_unflagged long]
    omega

end Compress

/-- A packet that is what `compress` makes of a shorter plain one, or that packet itself. -/
def Lost (pack : List Byte → List Byte) (size : Nat) (sent : List Byte) : Prop :=
  ∃ shorter : List Byte, compressed shorter = false ∧ 28 ≤ shorter.length ∧ shorter.length < size ∧
    (sent = shorter ∨ sent = compress pack shorter)

section Repeated

variable {pack : List Byte → List Byte} {unpack : List Byte → Option (List Byte)} {data : List Byte}

theorem lost_step {size : Nat} {sent : List Byte} (lost : Lost pack size sent) :
    Lost pack size (compress pack sent) := by
  obtain ⟨shorter, plain, header, less, sentEq⟩ := lost
  cases sentEq with
  | inl whole => exact ⟨shorter, plain, header, less, .inr (by rw [whole])⟩
  | inr packed =>
    rw [packed]
    by_cases shrinks : Shrinks pack shorter
    · obtain ⟨least, twice, leastPlain, leastHeader, leastLess⟩ := compress_again header plain shrinks
      exact ⟨least, leastPlain, leastHeader, Nat.lt_trans leastLess less, .inl twice⟩
    · have same : compress pack shorter = shorter := compress_grows header plain shrinks
      exact ⟨shorter, plain, header, less, .inl (by rw [same, same])⟩

theorem lost_run {size : Nat} {sent : List Byte} (lost : Lost pack size sent) (n : Nat) :
    Lost pack size ((compress pack)^[n] sent) := by
  induction n with
  | zero => exact lost
  | succ n ih =>
    rw [Function.iterate_succ_apply']
    exact lost_step ih

theorem uncompressAny_plain {lz4 : List Byte → Option (List Byte)} (header : 28 ≤ data.length)
    (plain : compressed data = false) : uncompressAny lz4 data = .returned true data := by
  have same : uncompress lz4 data = some data := by
    rw [uncompress, plain, if_neg (by simp)]
  rw [uncompressAny, if_neg (by omega), same]

theorem header_compress (header : 28 ≤ data.length) (plain : compressed data = false) :
    28 ≤ (compress pack data).length := by
  by_cases shrinks : Shrinks pack data
  · rw [compress_shrinks plain shrinks, length_with_verb header]
    omega
  · rw [compress_grows header plain shrinks]
    exact header

variable (inverse : Inverse pack unpack)
include inverse

theorem uncompressAny_compress (header : 28 ≤ data.length) (fits : data.length ≤ maxPacketLength)
    (plain : compressed data = false) : uncompressAny unpack (compress pack data) = .returned true data := by
  have payload : (data.drop 28).length ≤ maxPacketLength - 28 := by
    rw [List.length_drop]
    omega
  have back := uncompress_compress header plain fits (inverse _ payload)
  have long : 28 ≤ (compress pack data).length := header_compress header plain
  rw [uncompressAny, if_neg (by omega), back]

/-- Nothing that is lost comes back: what `uncompress` leaves is too short. -/
theorem lost_not_restored {sent : List Byte} (fits : data.length ≤ maxPacketLength)
    (lost : Lost pack data.length sent) : ¬Restores unpack sent data := by
  obtain ⟨shorter, plain, header, less, sentEq⟩ := lost
  have opened : uncompressAny unpack sent = .returned true shorter := by
    cases sentEq with
    | inl whole =>
      rw [whole]
      exact uncompressAny_plain header plain
    | inr packed =>
      rw [packed]
      exact uncompressAny_compress inverse header (by omega) plain
  rintro ⟨left, result, -, -, size⟩
  rw [opened, Outcome.returned.injEq] at result
  rw [← result.2] at size
  omega

/-- A packet comes back from `n` calls of `compress` exactly if there was one call, or nothing to gain. -/
theorem restores_iff (header : 28 ≤ data.length) (fits : data.length ≤ maxPacketLength)
    (plain : compressed data = false) {n : Nat} (called : 1 ≤ n) :
    Restores unpack ((compress pack)^[n] data) data ↔ n = 1 ∨ ¬Shrinks pack data := by
  have once : Restores unpack (compress pack data) data :=
    ⟨data, uncompressAny_compress inverse header fits plain, rfl, rfl, rfl⟩
  by_cases shrinks : Shrinks pack data
  · by_cases single : n = 1
    · rw [single, Function.iterate_one]
      exact ⟨fun _ => .inl rfl, fun _ => once⟩
    · obtain ⟨rest, count⟩ : ∃ rest, n = rest + 2 := ⟨n - 2, by omega⟩
      obtain ⟨shorter, twice, shorterPlain, shorterHeader, less⟩ := compress_again header plain shrinks
      have lost : Lost pack data.length ((compress pack)^[n] data) := by
        rw [count, Function.iterate_add_apply]
        apply lost_run
        exact ⟨shorter, shorterPlain, shorterHeader, less, .inl twice⟩
      constructor
      · intro restored
        exact absurd restored (lost_not_restored inverse fits lost)
      · intro condition
        exact absurd condition (by simp [single, shrinks])
  · have same : (compress pack)^[n] data = data :=
      Function.iterate_fixed (compress_grows header plain shrinks) n
    rw [same]
    constructor
    · exact fun _ => .inr shrinks
    · exact fun _ => ⟨data, uncompressAny_plain header plain, rfl, rfl, rfl⟩

end Repeated

section Uncompress

variable (lz4 : List Byte → Option (List Byte)) {data plain : List Byte}

/-- What `uncompress` returns true for fits the buffer and is not marked compressed. -/
theorem uncompress_sound (header : 28 ≤ data.length) (fits : data.length ≤ maxPacketLength)
    (opened : uncompress lz4 data = some plain) : plain.length ≤ maxPacketLength ∧ compressed plain = false := by
  unfold uncompress at opened
  split at opened
  · dsimp only at opened
    split at opened
    · split at opened
      · split at opened
        · rename_i payload _ sized
          cases opened
          rw [length_with_verb header]
          exact ⟨by omega, plain_of_cleared header payload⟩
        · cases opened
      · cases opened
    · cases opened
      rw [length_with_verb header]
      exact ⟨by decide, plain_of_cleared header []⟩
  · rename_i unmarked
    cases opened
    refine ⟨fits, ?_⟩
    by_cases flag : compressed data = true
    · exact absurd ⟨flag, header⟩ unmarked
    · simpa using flag

/-- On every content of the buffer `uncompress` throws, returns false, or leaves a plain packet within capacity. -/
theorem uncompressAny_sound (fits : data.length ≤ maxPacketLength) :
    uncompressAny lz4 data = .thrown ∨ uncompressAny lz4 data = .returned false data ∨
      ∃ left : List Byte, uncompressAny lz4 data = .returned true left ∧ left.length ≤ maxPacketLength ∧
        compressed left = false := by
  by_cases short : data.length ≤ 27
  · left
    rw [uncompressAny, if_pos short]
  · right
    rw [uncompressAny, if_neg short]
    cases opened : uncompress lz4 data with
    | none => exact .inl rfl
    | some plain => exact .inr ⟨plain, rfl, uncompress_sound lz4 (by omega) fits opened⟩

end Uncompress

/-- The law of compression: one call of `compress` and then `uncompress` give back every plain packet, more calls only
those that have nothing to gain, and `uncompress` never leaves more than fits. -/
theorem compression_iff {pack : List Byte → List Byte} {unpack : List Byte → Option (List Byte)}
    (inverse : Inverse pack unpack) :
    (∀ (data : List Byte) (n : Nat), 28 ≤ data.length → data.length ≤ maxPacketLength → compressed data = false →
      1 ≤ n → (Restores unpack ((compress pack)^[n] data) data ↔ n = 1 ∨ ¬Shrinks pack data)) ∧
    ∀ (lz4 : List Byte → Option (List Byte)) (data : List Byte), data.length ≤ maxPacketLength →
      uncompressAny lz4 data = .thrown ∨ uncompressAny lz4 data = .returned false data ∨
        ∃ left : List Byte, uncompressAny lz4 data = .returned true left ∧ left.length ≤ maxPacketLength ∧
          compressed left = false := by
  constructor
  · intro data n header fits plain called
    exact restores_iff inverse header fits plain called
  · intro lz4 data fits
    exact uncompressAny_sound lz4 fits

section Zeros

/-- 72 zero bytes as LZ4 writes them: a literal, a match of 66 bytes at distance 1, five literals. -/
def zerosPacked : List Byte := [0x1f, 0, 1, 0, 0x2f, 0x50, 0, 0, 0, 0, 0]

/-- A compressor that knows the zeros only, and stays invertible by an exchange. -/
def zerosPack (payload : List Byte) : List Byte :=
  if payload = List.replicate 72 0 then zerosPacked
  else if payload = zerosPacked then List.replicate 72 0
  else payload

def zerosUnpack (payload : List Byte) : Option (List Byte) := some (zerosPack payload)

theorem zeros_inverse : Inverse zerosPack zerosUnpack := by
  intro payload _
  rw [zerosUnpack]
  congr 1
  by_cases zeros : payload = List.replicate 72 0
  · rw [zeros]
    decide
  · by_cases packed : payload = zerosPacked
    · rw [packed]
      decide
    · have same : zerosPack payload = payload := by
        rw [zerosPack, if_neg zeros, if_neg packed]
      rw [same, same]

/-- A NOP of 100 bytes. -/
def zerosPacket : List Byte := List.replicate 100 0

/-- One call is undone. -/
theorem zeros_once : Inverse zerosPack zerosUnpack ∧ Shrinks zerosPack zerosPacket ∧
    Restores zerosUnpack ((compress zerosPack)^[1] zerosPacket) zerosPacket := by
  have back := ((compression_iff zeros_inverse).1 zerosPacket 1 (by decide) (by decide) (by decide) (by decide)).mpr
    (.inl rfl)
  exact ⟨zeros_inverse, by decide, back⟩

/-- After two calls the packet is plain to `uncompress`, with the 11 bytes of LZ4 for a payload. -/
theorem zeros_twice : Inverse zerosPack zerosUnpack ∧ 28 ≤ zerosPacket.length ∧
    zerosPacket.length ≤ maxPacketLength ∧ compressed zerosPacket = false ∧
    uncompressAny zerosUnpack ((compress zerosPack)^[2] zerosPacket) =
      .returned true (List.replicate 28 0 ++ zerosPacked) ∧
    ¬Restores zerosUnpack ((compress zerosPack)^[2] zerosPacket) zerosPacket := by
  have opened : uncompressAny zerosUnpack ((compress zerosPack)^[2] zerosPacket) =
      .returned true (List.replicate 28 0 ++ zerosPacked) := by decide +kernel
  refine ⟨zeros_inverse, by decide, by decide, by decide, opened, ?_⟩
  rintro ⟨plain, result, -, -, size⟩
  rw [opened, Outcome.returned.injEq] at result
  rw [← result.2] at size
  exact absurd size (by decide)

end Zeros

end ZeroTierNode.Compression
