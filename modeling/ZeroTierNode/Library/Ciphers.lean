import ZeroTierNode.Library.Bytes

/-!
Stream ciphers as the exclusive or with a key stream, and byte strings that are
changed in place.
-/

namespace ZeroTierNode.Library.Ciphers
open Library.Bytes

/-- Encrypts and decrypts: the key stream is given by its bytes. -/
def xorStream (stream : Nat → Byte) (data : List Byte) : List Byte :=
  data.mapIdx fun i byte => byte ^^^ stream i

/-- The first `count` bytes of a key stream. -/
def streamBytes (stream : Nat → Byte) (count : Nat) : List Byte := (List.range count).map stream

/-- The first `len` bytes of `d` with those of `s`. -/
def memxor (d s : List Byte) (len : Nat) : List Byte :=
  List.zipWith (fun x y => x ^^^ y) (d.take len) s ++ d.drop len

/-- Bytes written over those from a position on. -/
def overwrite (data : List Byte) (start : Nat) (bytes : List Byte) : List Byte :=
  data.take start ++ bytes ++ data.drop (start + bytes.length)

@[simp] theorem length_xorStream (stream : Nat → Byte) (data : List Byte) :
    (xorStream stream data).length = data.length := List.length_mapIdx

@[simp] theorem length_streamBytes (stream : Nat → Byte) (count : Nat) :
    (streamBytes stream count).length = count := by
  rw [streamBytes, List.length_map, List.length_range]

/-- What is encrypted twice is what it was. -/
theorem xorStream_xorStream (stream : Nat → Byte) (data : List Byte) :
    xorStream stream (xorStream stream data) = data := by
  apply List.ext_getElem
  · rw [length_xorStream, length_xorStream]
  · intro i inside also
    simp only [xorStream, List.getElem_mapIdx]
    rw [BitVec.xor_assoc, BitVec.xor_self, BitVec.xor_zero]

/-- The later bytes are encrypted with the later key stream. -/
theorem drop_xorStream (stream : Nat → Byte) (first second : List Byte) :
    (xorStream stream (first ++ second)).drop first.length = xorStream (fun i => stream (first.length + i)) second := by
  rw [xorStream, List.mapIdx_append, List.drop_left' List.length_mapIdx]
  simp only [xorStream, Nat.add_comm]

/-- Encrypting zeros gives the key stream itself. -/
theorem xorStream_zeros (stream : Nat → Byte) (count : Nat) :
    xorStream stream (List.replicate count 0) = streamBytes stream count := by
  apply List.ext_getElem
  · rw [length_xorStream, length_streamBytes, List.length_replicate]
  · intro i inside also
    simp [xorStream, streamBytes]

theorem streamBytes_take (stream : Nat → Byte) {short long : Nat} (le : short ≤ long) :
    (streamBytes stream long).take short = streamBytes stream short := by
  rw [streamBytes, streamBytes, ← List.map_take, List.take_range, Nat.min_eq_left le]

/-- A key stream that was computed beforehand, from some position of it on. -/
theorem memxor_streamBytes (stream : Nat → Byte) (data : List Byte) (skipped : Nat) :
    memxor data ((streamBytes stream (data.length + skipped)).drop skipped) data.length =
      xorStream (fun i => stream (skipped + i)) data := by
  rw [memxor, List.take_length, List.drop_length, List.append_nil]
  apply List.ext_getElem
  · simp
  · intro i inside also
    simp [xorStream, streamBytes]

theorem memxor_zero (d s : List Byte) : memxor d s 0 = d := by
  rw [memxor, List.take_zero, List.zipWith_nil_left, List.nil_append, List.drop_zero]

/-- Writing over a part of the same length replaces this part. -/
theorem overwrite_middle (before part after bytes : List Byte) (same : bytes.length = part.length) :
    overwrite (before ++ (part ++ after)) before.length bytes = before ++ (bytes ++ after) := by
  rw [overwrite, List.take_left, same, ← List.drop_drop, List.drop_left, List.drop_left, List.append_assoc]

end ZeroTierNode.Library.Ciphers
