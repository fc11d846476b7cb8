import Mathlib.Logic.Function.Basic
import ZeroTierNode.Library.Bytes

/-!
Memories of bytes in which a loop writes one byte after the other, and the buffer of a
stream cipher that works on blocks: bytes that are encrypted, then bytes that are not yet.
-/

namespace ZeroTierNode.Library.StreamBuffers
open Library.Bytes

abbrev Memory := Nat → Byte

/-- The memory with `count` bytes put at `a`. -/
def written (a : Nat) (bytes : Nat → Byte) (count : Nat) (m : Memory) : Memory := fun x =>
  if a ≤ x ∧ x < a + count then bytes (x - a) else m x

/-- A loop that writes `count` bytes from `a` on, each computed from what is in memory at its turn. -/
def eachByte (a : Nat) (value : Memory → Nat → Byte) : Nat → Memory → Memory
  | 0, m => m
  | count + 1, m => Function.update (eachByte a value count m) (a + count) (value (eachByte a value count m) count)

/-- The buffer at `out` after `n` bytes of input, of which `done` are encrypted. -/
def streamed (m : Memory) (out : Nat) (input stream : Nat → Byte) (done n : Nat) : Memory := fun x =>
  if out ≤ x ∧ x < out + n then
    if x < out + done then input (x - out) ^^^ stream (x - out) else input (x - out)
  else m x

theorem written_outside {a count x : Nat} {bytes : Nat → Byte} {m : Memory} (outside : x < a ∨ a + count ≤ x) :
    written a bytes count m x = m x := by
  rw [written, if_neg (by omega)]

theorem written_inside {a count i : Nat} {bytes : Nat → Byte} {m : Memory} (inside : i < count) :
    written a bytes count m (a + i) = bytes i := by
  rw [written, if_pos (by omega), Nat.add_sub_cancel_left]

theorem written_congr {a count : Nat} {bytes others : Nat → Byte} {m : Memory}
    (same : ∀ i < count, bytes i = others i) : written a bytes count m = written a others count m := by
  funext x
  by_cases inside : a ≤ x ∧ x < a + count
  · rw [written, written, if_pos inside, if_pos inside, same (x - a) (by omega)]
  · rw [written, written, if_neg inside, if_neg inside]

theorem update_written (a count : Nat) (bytes : Nat → Byte) (m : Memory) :
    Function.update (written a bytes count m) (a + count) (bytes count) = written a bytes (count + 1) m := by
  funext x
  by_cases last : x = a + count
  · rw [last, Function.update_self, written_inside (Nat.lt_succ_self count)]
  · rw [Function.update_of_ne last]
    simp only [written]
    have same : (a ≤ x ∧ x < a + count) ↔ (a ≤ x ∧ x < a + (count + 1)) := by omega
    rw [if_congr same rfl rfl]

theorem eachByte_congr {a count : Nat} {value other : Memory → Nat → Byte} {m : Memory}
    (same : ∀ m, ∀ i < count, value m i = other m i) : eachByte a value count m = eachByte a other count m := by
  induction count with
  | zero => rfl
  | succ count ih =>
      rw [eachByte, eachByte, ih fun m i below => same m i (Nat.lt_succ_of_lt below),
        same _ count (Nat.lt_succ_self count)]

/-- A loop whose turns find what they would have found before it. -/
theorem eachByte_eq {a count : Nat} {value : Memory → Nat → Byte} {bytes : Nat → Byte} {m : Memory}
    (same : ∀ i < count, value (written a bytes i m) i = bytes i) :
    eachByte a value count m = written a bytes count m := by
  induction count with
  | zero =>
      funext x
      exact (written_outside (by omega)).symm
  | succ count ih =>
      have before : eachByte a value count m = written a bytes count m :=
        ih fun i below => same i (Nat.lt_succ_of_lt below)
      rw [eachByte, before, same count (Nat.lt_succ_self count), update_written]

/-- What is written next to each other is written at once. -/
theorem written_written (a first second : Nat) (bytes : Nat → Byte) (m : Memory) :
    written (a + first) (fun i => bytes (first + i)) second (written a bytes first m) =
      written a bytes (first + second) m := by
  funext x
  by_cases low : a ≤ x ∧ x < a + first
  · rw [written_outside (Or.inl low.2), written, written, if_pos low, if_pos (by omega)]
  · by_cases high : a + first ≤ x ∧ x < a + first + second
    · rw [written, if_pos high, written, if_pos (by omega)]
      congr 1
      omega
    · rw [written_outside (by omega), written_outside (by omega), written_outside (by omega)]

theorem written_zero (a : Nat) (bytes : Nat → Byte) (m : Memory) : written a bytes 0 m = m := by
  funext x
  exact written_outside (by omega)

/-- What is written one byte at a time is written at once. -/
theorem written_succ (a count : Nat) (bytes : Nat → Byte) (m : Memory) :
    written (a + 1) (fun i => bytes (i + 1)) count (Function.update m a (bytes 0)) = written a bytes (count + 1) m := by
  have first : Function.update m a (bytes 0) = written a bytes 1 m := by
    have one := update_written a 0 bytes m
    rw [written_zero, Nat.add_zero, Nat.zero_add] at one
    exact one
  have both := written_written a 1 count bytes m
  simp only [Nat.add_comm 1] at both
  rw [first, both]

section Streams

variable {m : Memory} {out : Nat} {input stream : Nat → Byte} {done n : Nat}

theorem streamed_outside {x : Nat} (outside : x < out ∨ out + n ≤ x) :
    streamed m out input stream done n x = m x := by
  rw [streamed, if_neg (by omega)]

theorem streamed_start : streamed m out input stream 0 0 = m := by
  funext x
  exact streamed_outside (by omega)

/-- Once all is encrypted, the buffer has the stream. -/
theorem streamed_all : streamed m out input stream n n = written out (fun i => input i ^^^ stream i) n m := by
  funext x
  by_cases inside : out ≤ x ∧ x < out + n
  · rw [streamed, written, if_pos inside, if_pos inside, if_pos inside.2]
  · rw [streamed, written, if_neg inside, if_neg inside]

/-- Input that follows is put behind what is there. -/
theorem written_streamed (before : done ≤ n) (count : Nat) :
    written (out + n) (fun i => input (n + i)) count (streamed m out input stream done n) =
      streamed m out input stream done (n + count) := by
  funext x
  by_cases new : out + n ≤ x ∧ x < out + n + count
  · rw [written, if_pos new, streamed, if_pos (by omega), if_neg (by omega)]
    congr 1
    omega
  · rw [written, if_neg new]
    simp only [streamed]
    have same : (out ≤ x ∧ x < out + n) ↔ (out ≤ x ∧ x < out + (n + count)) := by omega
    rw [if_congr same rfl rfl]

/-- Input that is encrypted as it is written. -/
theorem written_encrypted (count : Nat) :
    written (out + n) (fun i => input (n + i) ^^^ stream (n + i)) count (streamed m out input stream n n) =
      streamed m out input stream (n + count) (n + count) := by
  rw [streamed_all, streamed_all]
  exact written_written out n count (fun i => input i ^^^ stream i) m

/-- The last bytes in the buffer are encrypted where they are. -/
theorem eachByte_encrypts (count : Nat) :
    eachByte (out + done) (fun m i => m (out + done + i) ^^^ stream (done + i)) count
        (streamed m out input stream done (done + count)) =
      streamed m out input stream (done + count) (done + count) := by
  have same : ∀ i < count, streamed m out input stream done (done + count) (out + done + i) = input (done + i) := by
    intro i below
    rw [streamed, if_pos (by omega), if_neg (by omega)]
    congr 1
    omega
  rw [@eachByte_eq _ _ _ (fun i => input (done + i) ^^^ stream (done + i))]
  · funext x
    by_cases last : out + done ≤ x ∧ x < out + done + count
    · have position : done + (x - (out + done)) = x - out := by omega
      rw [written, if_pos last, position, streamed, if_pos (by omega), if_pos (by omega)]
    · rw [written, if_neg last]
      simp only [streamed]
      by_cases inside : out ≤ x ∧ x < out + (done + count)
      · rw [if_pos inside, if_pos inside, if_pos (by omega), if_pos (by omega)]
      · rw [if_neg inside, if_neg inside]
  · intro i below
    rw [written_outside (by omega), same i below]

end Streams

section Words

/-- The word of eight bytes in little-endian order. -/
def word64 (bytes : Nat → Byte) : BitVec 64 :=
  bytes 7 ++ bytes 6 ++ bytes 5 ++ bytes 4 ++ bytes 3 ++ bytes 2 ++ bytes 1 ++ bytes 0

def load64 (m : Memory) (a : Nat) : BitVec 64 := word64 fun i => m (a + i)

def store64 (v : BitVec 64) (a : Nat) (m : Memory) : Memory := written a (fun i => v.extractLsb' (8 * i) 8) 8 m

/-- The order of the bytes turned round. -/
def hton64 (v : BitVec 64) : BitVec 64 := word64 fun i => v.extractLsb' (56 - 8 * i) 8

theorem word64_byte (bytes : Nat → Byte) {i : Nat} (inside : i < 8) :
    (word64 bytes).extractLsb' (8 * i) 8 = bytes i := by
  have position : i = 0 ∨ i = 1 ∨ i = 2 ∨ i = 3 ∨ i = 4 ∨ i = 5 ∨ i = 6 ∨ i = 7 := by omega
  unfold word64
  rcases position with rfl | rfl | rfl | rfl | rfl | rfl | rfl | rfl
  all_goals
    simp (disch := omega) only [BitVec.extractLsb'_append_eq_of_le, BitVec.extractLsb'_append_eq_right,
      Nat.reduceMul, Nat.reduceSub, Nat.mul_zero, BitVec.extractLsb'_eq_self]

theorem eq_of_bytes {v w : BitVec 64} (same : ∀ i < 8, v.extractLsb' (8 * i) 8 = w.extractLsb' (8 * i) 8) : v = w := by
  apply BitVec.eq_of_getLsbD_eq
  intro j inside
  have bit := congrArg (fun b : Byte => b.getLsbD (j % 8)) (same (j / 8) (by omega))
  have range : j % 8 < 8 := Nat.mod_lt j (by decide)
  simp only [BitVec.getLsbD_extractLsb', range, decide_true, Bool.true_and, Nat.div_add_mod] at bit
  exact bit

/-- A word is put together from its own bytes. -/
theorem word64_bytes (v : BitVec 64) : (word64 fun i => v.extractLsb' (8 * i) 8) = v :=
  eq_of_bytes fun _ inside => word64_byte _ inside

theorem word64_congr {bytes others : Nat → Byte} (same : ∀ i < 8, bytes i = others i) :
    word64 bytes = word64 others := by
  simp only [word64, same, Nat.reduceLT]

theorem hton64_hton64 (v : BitVec 64) : hton64 (hton64 v) = v := by
  calc hton64 (hton64 v) = word64 fun i => v.extractLsb' (8 * i) 8 := by
        apply word64_congr
        intro i inside
        have place : 56 - 8 * i = 8 * (7 - i) := by omega
        have back : 56 - 8 * (7 - i) = 8 * i := by omega
        rw [place, hton64, word64_byte _ (by omega), back]
    _ = v := word64_bytes v

/-- A word that is loaded, combined with one in network order and stored, byte by byte. -/
theorem store64_load64_hton64 (m target : Memory) (source a : Nat) (v : BitVec 64) :
    store64 (load64 m source ^^^ hton64 v) a target =
      written a (fun i => m (source + i) ^^^ v.extractLsb' (56 - 8 * i) 8) 8 target := by
  funext x
  by_cases inside : a ≤ x ∧ x < a + 8
  · rw [store64, written, written, if_pos inside, if_pos inside, BitVec.extractLsb'_xor,
      load64, hton64, word64_byte _ (by omega), word64_byte _ (by omega)]
  · rw [store64, written, written, if_neg inside, if_neg inside]

end Words

end ZeroTierNode.Library.StreamBuffers
