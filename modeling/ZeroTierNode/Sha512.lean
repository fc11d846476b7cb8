import Mathlib.Data.List.GetD
import Mathlib.Data.Nat.ModEq
import ZeroTierNode.Library.StreamBuffers
import ZeroTierNode.Address

/-!
SHA-512 and SHA-384 with their buffer for a block that is not full, and the keys derived from a shared one with HMAC.
However a message is cut into calls of `sha512_process`, its digest is the one of the standard.
-/

namespace ZeroTierNode.Sha512
open Library.Bytes Library.StreamBuffers

section Code

def K : List (BitVec 64) := [
  0x428a2f98d728ae22, 0x7137449123ef65cd, 0xb5c0fbcfec4d3b2f, 0xe9b5dba58189dbbc, 0x3956c25bf348b538,
  0x59f111f1b605d019, 0x923f82a4af194f9b, 0xab1c5ed5da6d8118, 0xd807aa98a3030242, 0x12835b0145706fbe,
  0x243185be4ee4b28c, 0x550c7dc3d5ffb4e2, 0x72be5d74f27b896f, 0x80deb1fe3b1696b1, 0x9bdc06a725c71235,
  0xc19bf174cf692694, 0xe49b69c19ef14ad2, 0xefbe4786384f25e3, 0x0fc19dc68b8cd5b5, 0x240ca1cc77ac9c65,
  0x2de92c6f592b0275, 0x4a7484aa6ea6e483, 0x5cb0a9dcbd41fbd4, 0x76f988da831153b5, 0x983e5152ee66dfab,
  0xa831c66d2db43210, 0xb00327c898fb213f, 0xbf597fc7beef0ee4, 0xc6e00bf33da88fc2, 0xd5a79147930aa725,
  0x06ca6351e003826f, 0x142929670a0e6e70, 0x27b70a8546d22ffc, 0x2e1b21385c26c926, 0x4d2c6dfc5ac42aed,
  0x53380d139d95b3df, 0x650a73548baf63de, 0x766a0abb3c77b2a8, 0x81c2c92e47edaee6, 0x92722c851482353b,
  0xa2bfe8a14cf10364, 0xa81a664bbc423001, 0xc24b8b70d0f89791, 0xc76c51a30654be30, 0xd192e819d6ef5218,
  0xd69906245565a910, 0xf40e35855771202a, 0x106aa07032bbd1b8, 0x19a4c116b8d2d0c8, 0x1e376c085141ab53,
  0x2748774cdf8eeb99, 0x34b0bcb5e19b48a8, 0x391c0cb3c5c95a63, 0x4ed8aa4ae3418acb, 0x5b9cca4f7763e373,
  0x682e6ff3d6b2b8a3, 0x748f82ee5defb2fc, 0x78a5636f43172f60, 0x84c87814a1f0ab72, 0x8cc702081a6439ec,
  0x90befffa23631e28, 0xa4506cebde82bde9, 0xbef9a3f7b2c67915, 0xc67178f2e372532b, 0xca273eceea26619c,
  0xd186b8c721c0c207, 0xeada7dd6cde0eb1e, 0xf57d4f7fee6ed178, 0x06f067aa72176fba, 0x0a637dc5a2c898a6,
  0x113f9804bef90dae, 0x1b710b35131c471b, 0x28db77f523047d84, 0x32caab7b40c72493, 0x3c9ebe0a15c9bebc,
  0x431d67c49c100d4c, 0x4cc5d4becb3e42b6, 0x597f299cfc657e2a, 0x5fcb6fab3ad6faec, 0x6c44198c4a475817]

/-- `ROR64c` -/
def ror (x : BitVec 64) (n : Nat) : BitVec 64 := x >>> n ||| x <<< (64 - n)

def ch (x y z : BitVec 64) : BitVec 64 := z ^^^ (x &&& (y ^^^ z))

def maj (x y z : BitVec 64) : BitVec 64 := (x ||| y) &&& z ||| x &&& y

def sigma0 (x : BitVec 64) : BitVec 64 := ror x 28 ^^^ ror x 34 ^^^ ror x 39

def sigma1 (x : BitVec 64) : BitVec 64 := ror x 14 ^^^ ror x 18 ^^^ ror x 41

def gamma0 (x : BitVec 64) : BitVec 64 := ror x 1 ^^^ ror x 8 ^^^ x >>> 7

def gamma1 (x : BitVec 64) : BitVec 64 := ror x 19 ^^^ ror x 61 ^^^ x >>> 6

/-- `LOAD64H` -/
def load64h (bytes : Nat → Byte) : BitVec 64 :=
  bytes 0 ++ bytes 1 ++ bytes 2 ++ bytes 3 ++ bytes 4 ++ bytes 5 ++ bytes 6 ++ bytes 7

/-- `STORE64H` -/
def store64h (word : BitVec 64) : List Byte := (List.range 8).map fun i => word.extractLsb' (56 - 8 * i) 8

/-- "for (i = 16; i < 80; i++)" -/
def expand (w : List (BitVec 64)) (i : Nat) : List (BitVec 64) :=
  w ++ [gamma1 (w.getD (i - 2) 0) + w.getD (i - 7) 0 + gamma0 (w.getD (i - 15) 0) + w.getD (i - 16) 0]

/-- `W`, after so many turns of that loop. -/
def schedule (buf : Nat → Byte) (turns : Nat) : List (BitVec 64) :=
  (List.range' 16 turns).foldl expand ((List.range 16).map fun i => load64h fun j => buf (8 * i + j))

/-- `RND`, with the places of its variables in `S`. -/
def rnd (w s : List (BitVec 64)) (a b c d e f g h i : Nat) : List (BitVec 64) :=
  let t0 := s.getD h 0 + sigma1 (s.getD e 0) + ch (s.getD e 0) (s.getD f 0) (s.getD g 0) + K.getD i 0 + w.getD i 0
  let t1 := sigma0 (s.getD a 0) + maj (s.getD a 0) (s.getD b 0) (s.getD c 0)
  (s.set d (s.getD d 0 + t0)).set h (t0 + t1)

/-- "for (i = 0; i < 80; i += 8)" -/
def eightRounds (w s : List (BitVec 64)) (i : Nat) : List (BitVec 64) :=
  let s := rnd w s 0 1 2 3 4 5 6 7 i
  let s := rnd w s 7 0 1 2 3 4 5 6 (i + 1)
  let s := rnd w s 6 7 0 1 2 3 4 5 (i + 2)
  let s := rnd w s 5 6 7 0 1 2 3 4 (i + 3)
  let s := rnd w s 4 5 6 7 0 1 2 3 (i + 4)
  let s := rnd w s 3 4 5 6 7 0 1 2 (i + 5)
  let s := rnd w s 2 3 4 5 6 7 0 1 (i + 6)
  rnd w s 1 2 3 4 5 6 7 0 (i + 7)

/-- `sha512_compress` -/
def compress (state : List (BitVec 64)) (buf : Nat → Byte) : List (BitVec 64) :=
  let w := schedule buf 64
  let s := (List.range 10).foldl (fun s turn => eightRounds w s (8 * turn)) state
  (List.range 8).map fun i => state.getD i 0 + s.getD i 0

/-- `sha512_state` -/
structure State where
  length : BitVec 64
  state : List (BitVec 64)
  curlen : Nat
  buf : Nat → Byte
  room : curlen < 128

def initial (state : List (BitVec 64)) : State := ⟨0, state, 0, fun _ => 0, by decide⟩

/-- `sha384_init` -/
def init384 : List (BitVec 64) := [
  0xcbbb9d5dc1059ed8, 0x629a292a367cd507, 0x9159015a3070dd17, 0x152fecd8f70e5939,
  0x67332667ffc00b31, 0x8eb44a8768581511, 0xdb0c2e0d64f98fa7, 0x47b5481dbefa4fa4]

/-- `sha512_init` -/
def init512 : List (BitVec 64) := [
  0x6a09e667f3bcc908, 0xbb67ae8584caa73b, 0x3c6ef372fe94f82b, 0xa54ff53a5f1d36f1,
  0x510e527fade682d1, 0x9b05688c2b3e6c1f, 0x1f83d9abfb41bd6b, 0x5be0cd19137e2179]

theorem part_room {curlen size : Nat} (room : curlen < 128) (part : curlen + min size (128 - curlen) ≠ 128) :
    curlen + min size (128 - curlen) < 128 := by omega

/-- `sha512_process` -/
def process (md : State) (m : List Byte) : State :=
  if empty : m = [] then md
  else if md.curlen = 0 ∧ 128 ≤ m.length then
    process { md with state := compress md.state fun i => m.getD i 0, length := md.length + 128 * 8 } (m.drop 128)
  else
    let n := min m.length (128 - md.curlen)
    let buf := written md.curlen (fun i => m.getD i 0) n md.buf
    if part : md.curlen + n ≠ 128 then
      process { md with curlen := md.curlen + n, buf := buf, room := part_room md.room part } (m.drop n)
    else
      process { state := compress md.state buf, length := md.length + 8 * 128, curlen := 0, buf := buf,
                room := by decide } (m.drop n)
termination_by m.length
decreasing_by
  all_goals
    have some := List.length_pos_iff.mpr empty
    have room := md.room
    rw [List.length_drop]
    omega

/-- The end of `sha512_done`, once there is room for the length. -/
def lastBlock (length : BitVec 64) (state : List (BitVec 64)) (curlen : Nat) (buf : Nat → Byte) : List Byte :=
  let buf := written curlen (fun _ => 0) (120 - curlen) buf
  let buf := written 120 (fun i => length.extractLsb' (56 - 8 * i) 8) 8 buf
  (compress state buf).flatMap store64h

/-- `sha512_done` -/
def done (md : State) : List Byte :=
  let length := md.length + BitVec.ofNat 64 md.curlen * 8
  let buf := Function.update md.buf md.curlen 0x80
  let curlen := md.curlen + 1
  if 112 < curlen then
    let buf := written curlen (fun _ => 0) (128 - curlen) buf
    lastBlock length (compress md.state buf) 0 buf
  else lastBlock length md.state curlen buf

def SHA512 (data : List Byte) : List Byte := done (process (initial init512) data)

def SHA384 (data : List Byte) : List Byte := (done (process (initial init384) data)).take 48

/-- `SHA384` of two strings. -/
def SHA384Both (data0 data1 : List Byte) : List Byte :=
  (done (process (process (initial init384) data0) data1)).take 48

/-- The bytes of so many words in memory. -/
def memoryBytes (words : Nat → BitVec 64) (count : Nat) : List Byte :=
  (List.range (8 * count)).map fun i => (words (i / 8)).extractLsb' (8 * (i % 8)) 8

/-- The words of the key and of one padding, with the padding alone behind the key. -/
def keyPadded (key : Nat → Byte) (pad : BitVec 64) : Nat → BitVec 64 := fun j =>
  if j < 6 then load64 key (8 * j) ^^^ pad else pad

def HMACSHA384 (key : Nat → Byte) (msg : List Byte) : List Byte :=
  let kInPadded := memoryBytes (keyPadded key 0x3636363636363636) 16
  let outer := memoryBytes (keyPadded key 0x5c5c5c5c5c5c5c5c) 16
  SHA384 (outer ++ SHA384Both kInPadded msg)

/-- `KBKDFHMACSHA384` -/
def KBKDFHMACSHA384 (key : Nat → Byte) (label context : Byte) (iter : BitVec 32) : List Byte :=
  HMACSHA384 key (wordBytes 4 iter ++ [0x5a, 0x54, label, 0, context, 0, 0, 0x01, 0x80])

end Code

section Rounds

/-- The definition, on eight words and more that play no part. -/
abbrev Words := Nat → BitVec 64

def choose (x y z : BitVec 64) : BitVec 64 := x &&& y ^^^ (~~~x &&& z)

def majority (x y z : BitVec 64) : BitVec 64 := x &&& y ^^^ (x &&& z) ^^^ (y &&& z)

def bigSigma0 (x : BitVec 64) : BitVec 64 := x.rotateRight 28 ^^^ x.rotateRight 34 ^^^ x.rotateRight 39

def bigSigma1 (x : BitVec 64) : BitVec 64 := x.rotateRight 14 ^^^ x.rotateRight 18 ^^^ x.rotateRight 41

def smallSigma0 (x : BitVec 64) : BitVec 64 := x.rotateRight 1 ^^^ x.rotateRight 8 ^^^ x >>> 7

def smallSigma1 (x : BitVec 64) : BitVec 64 := x.rotateRight 19 ^^^ x.rotateRight 61 ^^^ x >>> 6

/-- The message schedule of a block. -/
def messageWord (block : Nat → Byte) (t : Nat) : BitVec 64 :=
  if t < 16 then load64h fun j => block (8 * t + j)
  else smallSigma1 (messageWord block (t - 2)) + messageWord block (t - 7) +
    smallSigma0 (messageWord block (t - 15)) + messageWord block (t - 16)

/-- One round: every working variable goes on to the next. -/
def round (k w : BitVec 64) (v : Words) : Words :=
  let t1 := v 7 + bigSigma1 (v 4) + choose (v 4) (v 5) (v 6) + k + w
  let t2 := bigSigma0 (v 0) + majority (v 0) (v 1) (v 2)
  fun j => if j = 0 then t1 + t2 else if j = 4 then v 3 + t1 else v (j - 1)

def rounds (block : Nat → Byte) : Nat → Words → Words
  | 0, v => v
  | n + 1, v => round (K.getD n 0) (messageWord block n) (rounds block n v)

def hashBlock (h : Words) (block : Nat → Byte) : Words := fun j => h j + rounds block 80 h j

variable {s w : List (BitVec 64)} {v h : Words} {block : Nat → Byte} {r i : Nat}

theorem ch_eq (x y z : BitVec 64) : ch x y z = choose x y z := by
  rw [ch, choose]
  ext i inside
  simp only [BitVec.getElem_xor, BitVec.getElem_and, BitVec.getElem_not]
  cases x[i] <;> cases y[i] <;> cases z[i] <;> rfl

theorem maj_eq (x y z : BitVec 64) : maj x y z = majority x y z := by
  rw [maj, majority]
  ext i inside
  simp only [BitVec.getElem_xor, BitVec.getElem_and, BitVec.getElem_or]
  cases x[i] <;> cases y[i] <;> cases z[i] <;> rfl

theorem ror_eq (x : BitVec 64) {n : Nat} (small : n < 64) : ror x n = x.rotateRight n := by
  rw [ror, BitVec.rotateRight_def, Nat.mod_eq_of_lt small]

theorem sigma0_eq (x : BitVec 64) : sigma0 x = bigSigma0 x := by
  rw [sigma0, bigSigma0, ror_eq x (by decide), ror_eq x (by decide), ror_eq x (by decide)]

theorem sigma1_eq (x : BitVec 64) : sigma1 x = bigSigma1 x := by
  rw [sigma1, bigSigma1, ror_eq x (by decide), ror_eq x (by decide), ror_eq x (by decide)]

theorem gamma0_eq (x : BitVec 64) : gamma0 x = smallSigma0 x := by
  rw [gamma0, smallSigma0, ror_eq x (by decide), ror_eq x (by decide)]

theorem gamma1_eq (x : BitVec 64) : gamma1 x = smallSigma1 x := by
  rw [gamma1, smallSigma1, ror_eq x (by decide), ror_eq x (by decide)]

theorem getD_set (inside : i < s.length) (x : BitVec 64) (k : Nat) :
    (s.set i x).getD k 0 = if k = i then x else s.getD k 0 := by
  by_cases same : k = i
  · rw [if_pos same, same, List.getD_eq_getElem?_getD, List.getElem?_set_self inside, Option.getD_some]
  · rw [if_neg same, List.getD_eq_getElem?_getD, List.getElem?_set_ne (Ne.symm same), ← List.getD_eq_getElem?_getD]

/-- `S` after `r` rounds: the working variables have moved up by so many places. -/
structure Turned (r : Nat) (s : List (BitVec 64)) (v : Words) : Prop where
  size : s.length = 8
  at_place : ∀ j < 8, s.getD ((j + (8 - r)) % 8) 0 = v j

theorem place_next (small : r < 8) (j : Nat) : (j + (8 - (r + 1) % 8)) % 8 = (j + 7 + (8 - r)) % 8 := by
  by_cases wrap : r = 7
  · rw [wrap, Nat.mod_self, Nat.sub_zero, Nat.add_assoc]
  · have next : j + 7 + (8 - r) = j + (8 - (r + 1)) + 8 := by omega
    rw [@Nat.mod_eq_of_lt (r + 1) 8 (by omega), next, Nat.add_mod_right]

theorem place_inj {j k d : Nat} (below : j < 8) (below' : k < 8) (same : (j + d) % 8 = (k + d) % 8) : j = k := by
  have alike := Nat.ModEq.add_right_cancel' d same
  rwa [Nat.ModEq, Nat.mod_eq_of_lt below, Nat.mod_eq_of_lt below'] at alike

/-- `RND` is a round. -/
theorem rnd_turned (turned : Turned r s v) (small : r < 8) (i : Nat) :
    Turned ((r + 1) % 8) (rnd w s ((0 + (8 - r)) % 8) ((1 + (8 - r)) % 8) ((2 + (8 - r)) % 8) ((3 + (8 - r)) % 8)
      ((4 + (8 - r)) % 8) ((5 + (8 - r)) % 8) ((6 + (8 - r)) % 8) ((7 + (8 - r)) % 8) i)
      (round (K.getD i 0) (w.getD i 0) v) := by
  obtain ⟨size, at_place⟩ := turned
  refine ⟨by rw [rnd, List.length_set, List.length_set, size], fun j below => ?_⟩
  have fourth : (3 + (8 - r)) % 8 < s.length := by
    rw [size]
    exact Nat.mod_lt _ (by decide)
  have last : (7 + (8 - r)) % 8 < (s.set ((3 + (8 - r)) % 8) (s.getD ((3 + (8 - r)) % 8) 0 + (v 7 + bigSigma1 (v 4) +
      choose (v 4) (v 5) (v 6) + K.getD i 0 + w.getD i 0))).length := by
    rw [List.length_set, size]
    exact Nat.mod_lt _ (by decide)
  rw [rnd, round, at_place 0 (by decide), at_place 1 (by decide), at_place 2 (by decide), at_place 4 (by decide),
    at_place 5 (by decide), at_place 6 (by decide), at_place 7 (by decide), ch_eq, maj_eq, sigma0_eq, sigma1_eq]
  dsimp only
  rw [getD_set last, getD_set fourth, at_place 3 (by decide), place_next small]
  cases j with
  | zero => rw [Nat.zero_add, if_pos rfl, if_pos rfl]
  | succ k =>
      have before : (k + 1 + 7 + (8 - r)) % 8 = (k + (8 - r)) % 8 := by
        rw [Nat.add_assoc k, Nat.add_right_comm, Nat.add_mod_right]
      have apart : (k + (8 - r)) % 8 ≠ (7 + (8 - r)) % 8 := fun same => by
        have seventh := place_inj (Nat.lt_of_succ_lt below) (by decide) same
        omega
      rw [before, if_neg apart, if_neg (Nat.succ_ne_zero k), Nat.add_sub_cancel]
      by_cases third : k = 3
      · rw [third, if_pos rfl, if_pos rfl]
      · have other : (k + (8 - r)) % 8 ≠ (3 + (8 - r)) % 8 :=
          fun same => third (place_inj (Nat.lt_of_succ_lt below) (by decide) same)
        rw [if_neg other, if_neg (fun fifth => third (Nat.succ_injective fifth)), at_place k (Nat.lt_of_succ_lt below)]

theorem eightRounds_turned {n : Nat} (turned : Turned 0 s (rounds block n v))
    (scheduled : ∀ t < n + 8, w.getD t 0 = messageWord block t) :
    Turned 0 (eightRounds w s n) (rounds block (n + 8) v) := by
  have next {r k : Nat} {s : List (BitVec 64)} (small : r < 8) (below : k < n + 8)
      (turned : Turned r s (rounds block k v)) :
      Turned ((r + 1) % 8) (rnd w s ((0 + (8 - r)) % 8) ((1 + (8 - r)) % 8) ((2 + (8 - r)) % 8) ((3 + (8 - r)) % 8)
        ((4 + (8 - r)) % 8) ((5 + (8 - r)) % 8) ((6 + (8 - r)) % 8) ((7 + (8 - r)) % 8) k)
        (rounds block (k + 1) v) := by
    rw [rounds, ← scheduled k below]
    exact rnd_turned turned small k
  have t1 := next (by decide) (by omega) turned
  have t2 := next (by decide) (by omega) t1
  have t3 := next (by decide) (by omega) t2
  have t4 := next (by decide) (by omega) t3
  have t5 := next (by decide) (by omega) t4
  have t6 := next (by decide) (by omega) t5
  have t7 := next (by decide) (by omega) t6
  exact next (by decide) (by omega) t7

theorem schedule_spec (buf : Nat → Byte) (turns : Nat) :
    (schedule buf turns).length = 16 + turns ∧ ∀ t < 16 + turns, (schedule buf turns).getD t 0 = messageWord buf t := by
  induction turns with
  | zero =>
      refine ⟨by rw [schedule, List.range'_zero, List.foldl_nil, List.length_map, List.length_range], ?_⟩
      intro t below
      rw [messageWord, if_pos below, schedule, List.range'_zero, List.foldl_nil, List.getD_eq_getElem?_getD,
        List.getElem?_map, List.getElem?_range below]
      rfl
  | succ turns ih =>
      obtain ⟨size, before⟩ := ih
      have step : schedule buf (turns + 1) = expand (schedule buf turns) (16 + turns) := by
        rw [schedule, List.range'_concat, Nat.one_mul, List.foldl_append]
        rfl
      rw [step, expand]
      refine ⟨by rw [List.length_append, size, List.length_singleton, Nat.add_assoc], fun t below => ?_⟩
      by_cases last : t = 16 + turns
      · rw [last, List.getD_append_right _ _ _ _ (Nat.le_of_eq size), size, Nat.sub_self, List.getD_cons_zero,
          before _ (by omega), before _ (by omega), before _ (by omega), before _ (by omega), gamma0_eq, gamma1_eq]
        conv_rhs => rw [messageWord, if_neg (by omega)]
      · rw [List.getD_append _ _ _ _ (by omega), before t (by omega)]

/-- `sha512_compress` is the hash of one block. -/
theorem compress_spec (h : Words) (buf : Nat → Byte) :
    compress ((List.range 8).map h) buf = (List.range 8).map (hashBlock h buf) := by
  obtain ⟨-, scheduled⟩ := schedule_spec buf 64
  have start (j : Nat) (below : j < 8) : ((List.range 8).map h).getD j 0 = h j := by
    rw [List.getD_eq_getElem?_getD, List.getElem?_map, List.getElem?_range below]
    rfl
  have turned (turns : Nat) (few : turns ≤ 10) : Turned 0
      ((List.range turns).foldl (fun s turn => eightRounds (schedule buf 64) s (8 * turn)) ((List.range 8).map h))
      (rounds buf (8 * turns) h) := by
    induction turns with
    | zero =>
        refine ⟨by rw [List.range_zero, List.foldl_nil, List.length_map, List.length_range], fun j below => ?_⟩
        rw [List.range_zero, List.foldl_nil, Nat.sub_zero, Nat.add_mod_right, Nat.mod_eq_of_lt below, start j below]
        rfl
    | succ turns ih =>
        rw [@List.range_succ turns, List.foldl_append, List.foldl_cons, List.foldl_nil]
        exact eightRounds_turned (ih (by omega)) fun t below => scheduled t (by omega)
  have all := turned 10 (Nat.le_refl 10)
  rw [compress]
  apply List.map_congr_left
  intro j member
  have below := List.mem_range.mp member
  have place := all.at_place j below
  rw [Nat.sub_zero, Nat.add_mod_right, Nat.mod_eq_of_lt below] at place
  rw [start j below, place, hashBlock]

end Rounds

section Streams

/-- The hash of so many blocks of a text. -/
def chain (h : Words) (text : List Byte) : Nat → Words
  | 0 => h
  | n + 1 => hashBlock (chain h text n) fun i => text.getD (128 * n + i) 0

/-- A one bit, zeros, and the number of bits in sixteen bytes at the end of a block. -/
def pad (message : List Byte) : List Byte :=
  message ++ 0x80 :: (List.replicate ((239 - message.length % 128) % 128) 0 ++ bigEndian 16 (8 * message.length))

def digest (h : Words) (message : List Byte) : List Byte :=
  (List.range 8).flatMap fun j => store64h (chain h (pad message) ((pad message).length / 128) j)

variable {h : Words} {text more : List Byte} {md : State}

theorem load64h_congr {bytes others : Nat → Byte} (same : ∀ i < 8, bytes i = others i) :
    load64h bytes = load64h others := by
  simp only [load64h, same, Nat.reduceLT]

theorem messageWord_congr {block other : Nat → Byte} (same : ∀ i < 128, block i = other i) (t : Nat) :
    messageWord block t = messageWord other t := by
  induction t using Nat.strong_induction_on with
  | h t ih =>
      unfold messageWord
      by_cases first : t < 16
      · rw [if_pos first, if_pos first]
        exact load64h_congr fun i below => same _ (by omega)
      · rw [if_neg first, if_neg first, ih (t - 2) (by omega), ih (t - 7) (by omega), ih (t - 15) (by omega),
          ih (t - 16) (by omega)]

theorem hashBlock_congr {block other : Nat → Byte} (same : ∀ i < 128, block i = other i) :
    hashBlock h block = hashBlock h other := by
  have all (n : Nat) : rounds block n h = rounds other n h := by
    induction n with
    | zero => rfl
    | succ n ih => rw [rounds, rounds, ih, messageWord_congr same]
  funext j
  rw [hashBlock, hashBlock, all]

/-- Blocks that are full are not changed by what follows. -/
theorem chain_append {n : Nat} (full : 128 * n ≤ text.length) : chain h (text ++ more) n = chain h text n := by
  induction n with
  | zero => rfl
  | succ n ih =>
      rw [chain, chain, ih (by omega)]
      apply hashBlock_congr
      intro i below
      exact List.getD_append _ _ _ _ (by omega)

/-- What `md` has of a text: the hash of its full blocks, their number of bits, and the bytes behind them. -/
structure Absorbed (h : Words) (text : List Byte) (md : State) : Prop where
  state : md.state = (List.range 8).map (chain h text (text.length / 128))
  length : md.length = BitVec.ofNat 64 (1024 * (text.length / 128))
  curlen : md.curlen = text.length % 128
  buf : ∀ i < md.curlen, md.buf i = text.getD (128 * (text.length / 128) + i) 0

theorem absorbed_initial (h : Words) : Absorbed h [] (initial ((List.range 8).map h)) where
  state := rfl
  length := rfl
  curlen := rfl
  buf := fun _ below => absurd below (Nat.not_lt_zero _)

/-- The bytes of a block that a piece goes on with. -/
theorem Absorbed.block (absorbed : Absorbed h text md) {piece : List Byte} {block : Nat → Byte}
    (first : ∀ i < md.curlen, block i = md.buf i)
    (second : ∀ i < piece.length, block (md.curlen + i) = piece.getD i 0) :
    ∀ i < md.curlen + piece.length, block i = (text ++ piece).getD (128 * (text.length / 128) + i) 0 := by
  intro i below
  have curlen := absorbed.curlen
  have size := Nat.div_add_mod text.length 128
  by_cases before : i < md.curlen
  · rw [first i before, absorbed.buf i before, List.getD_append _ _ _ _ (by omega)]
  · obtain ⟨k, place⟩ := Nat.exists_eq_add_of_le (Nat.le_of_not_lt before)
    have behind : 128 * (text.length / 128) + (md.curlen + k) = text.length + k := by omega
    rw [place, second k (by omega), behind, List.getD_append_right _ _ _ _ (Nat.le_add_right _ _),
      Nat.add_sub_cancel_left]

/-- A piece that fills a block. -/
theorem absorbed_block (absorbed : Absorbed h text md) {piece : List Byte} (full : md.curlen + piece.length = 128)
    {block : Nat → Byte} (first : ∀ i < md.curlen, block i = md.buf i)
    (second : ∀ i < piece.length, block (md.curlen + i) = piece.getD i 0) {next : State}
    (hashed : next.state = compress md.state block) (counted : next.length = md.length + 1024)
    (emptied : next.curlen = 0) : Absorbed h (text ++ piece) next := by
  have curlen := absorbed.curlen
  have size : (text ++ piece).length = 128 * (text.length / 128 + 1) := by
    rw [List.length_append]
    omega
  have count : (text ++ piece).length / 128 = text.length / 128 + 1 := by
    rw [size, Nat.mul_div_cancel_left _ (by decide)]
  have same := absorbed.block first second
  rw [full] at same
  refine ⟨?_, ?_, ?_, ?_⟩
  · rw [count, chain, chain_append (Nat.mul_div_le _ _), ← hashBlock_congr same, ← compress_spec, ← absorbed.state]
    exact hashed
  · rw [count, counted, absorbed.length]
    exact (BitVec.ofNat_add _ 1024).symm
  · rw [size, Nat.mul_mod_right]
    exact emptied
  · intro i below
    rw [emptied] at below
    exact absurd below (Nat.not_lt_zero i)

/-- A piece that leaves room in the block. -/
theorem absorbed_part (absorbed : Absorbed h text md) {piece : List Byte} (part : md.curlen + piece.length < 128)
    {next : State} (hashed : next.state = md.state) (counted : next.length = md.length)
    (longer : next.curlen = md.curlen + piece.length) (first : ∀ i < md.curlen, next.buf i = md.buf i)
    (second : ∀ i < piece.length, next.buf (md.curlen + i) = piece.getD i 0) : Absorbed h (text ++ piece) next := by
  have curlen := absorbed.curlen
  have count : (text ++ piece).length / 128 = text.length / 128 := by
    rw [List.length_append]
    omega
  refine ⟨?_, ?_, ?_, ?_⟩
  · rw [count, chain_append (Nat.mul_div_le _ _), hashed]
    exact absorbed.state
  · rw [count, counted]
    exact absorbed.length
  · rw [longer, List.length_append]
    omega
  · intro i below
    rw [longer] at below
    rw [count]
    exact absorbed.block first second i below

theorem absorbed_process (absorbed : Absorbed h text md) (m : List Byte) : Absorbed h (text ++ m) (process md m) := by
  induction size : m.length using Nat.strong_induction_on generalizing text md m with
  | h size' ih =>
      rw [process]
      by_cases empty : m = []
      · rw [dif_pos empty, empty, List.append_nil]
        exact absorbed
      · have some := List.length_pos_iff.mpr empty
        have room := md.room
        -- the induction goes on with what is left of the message
        have rest {n : Nat} {next : State} (taken : 0 < n) (after : Absorbed h (text ++ m.take n) next) :
            Absorbed h (text ++ m) (process next (m.drop n)) := by
          have all := ih (m.drop n).length (by rw [List.length_drop]; omega) after (m.drop n) rfl
          rwa [List.append_assoc, List.take_append_drop] at all
        have getD_take {n i : Nat} (below : i < n) : (m.take n).getD i 0 = m.getD i 0 := by
          rw [List.getD_eq_getElem?_getD, List.getElem?_take_of_lt below, ← List.getD_eq_getElem?_getD]
        rw [dif_neg empty]
        by_cases direct : md.curlen = 0 ∧ 128 ≤ m.length
        · obtain ⟨none, long⟩ := direct
          have piece : (m.take 128).length = 128 := List.length_take_of_le long
          rw [if_pos ⟨none, long⟩]
          refine rest (by decide) (absorbed_block absorbed (by rw [none, piece]) ?_ ?_ rfl rfl none)
          · intro i below
            rw [none] at below
            exact absurd below (Nat.not_lt_zero i)
          · intro i below
            rw [none, Nat.zero_add, getD_take (by omega)]
        · rw [if_neg direct]
          dsimp only
          have inside : min m.length (128 - md.curlen) ≤ m.length := Nat.min_le_left _ _
          have piece : (m.take (min m.length (128 - md.curlen))).length = min m.length (128 - md.curlen) :=
            List.length_take_of_le inside
          have first (n : Nat) : ∀ i < md.curlen, written md.curlen (fun i => m.getD i 0) n md.buf i = md.buf i :=
            fun i below => written_outside (Or.inl below)
          have second {n : Nat} (inside : n ≤ m.length) : ∀ i < (m.take n).length,
              written md.curlen (fun i => m.getD i 0) n md.buf (md.curlen + i) = (m.take n).getD i 0 := by
            intro i below
            rw [List.length_take_of_le inside] at below
            rw [written_inside below, getD_take below]
          by_cases part : md.curlen + min m.length (128 - md.curlen) ≠ 128
          · rw [dif_pos part]
            refine rest (by omega) (absorbed_part absorbed (by omega) rfl rfl ?_ (first _) (second inside))
            rw [piece]
          · rw [dif_neg part]
            exact rest (by omega) (absorbed_block absorbed (by omega) (first _) (second inside) rfl rfl rfl)

theorem absorbed_pieces (absorbed : Absorbed h text md) (pieces : List (List Byte)) :
    Absorbed h (text ++ pieces.flatten) (pieces.foldl process md) := by
  induction pieces generalizing text md with
  | nil =>
      rw [List.flatten_nil, List.append_nil]
      exact absorbed
  | cons piece pieces ih =>
      rw [List.flatten_cons, ← List.append_assoc]
      exact ih (absorbed_process absorbed piece)

end Streams

section Finish

variable {h : Words} {text : List Byte} {md : State} {i : Nat}

theorem getD_bigEndian (value : Nat) {count : Nat} (below : i < count) :
    (bigEndian count value).getD i 0 = BitVec.ofNat 8 (value / 256 ^ (count - 1 - i)) := by
  induction count generalizing i with
  | zero => exact absurd below (Nat.not_lt_zero i)
  | succ count ih =>
      rw [bigEndian]
      cases i with
      | zero => rfl
      | succ i =>
          have place : count + 1 - 1 - (i + 1) = count - 1 - i := by omega
          rw [List.getD_cons_succ, ih (Nat.lt_of_succ_lt_succ below), place]

theorem length_pad (text : List Byte) :
    (pad text).length = text.length + 1 + (239 - text.length % 128) % 128 + 16 := by
  rw [pad, List.length_append, List.length_cons, List.length_append, List.length_replicate, bigEndian_length]
  omega

theorem length_pad_one {n c : Nat} (whole : text.length = 128 * n + c) (room : c + 1 ≤ 112) :
    (pad text).length = 128 * (n + 1) := by
  have behind : text.length % 128 = c := by rw [whole, Nat.mul_add_mod, Nat.mod_eq_of_lt (by omega)]
  have zeros : (239 - c) % 128 = 111 - c := by omega
  rw [length_pad, behind, zeros]
  omega

theorem length_pad_two {n c : Nat} (whole : text.length = 128 * n + c) (full : 111 < c) (room : c < 128) :
    (pad text).length = 128 * (n + 2) := by
  have behind : text.length % 128 = c := by rw [whole, Nat.mul_add_mod, Nat.mod_eq_of_lt room]
  have zeros : (239 - c) % 128 = 239 - c := Nat.mod_eq_of_lt (by omega)
  rw [length_pad, behind, zeros]
  omega

theorem pad_text (inside : i < text.length) : (pad text).getD i 0 = text.getD i 0 := List.getD_append _ _ _ _ inside

/-- Behind the text. -/
theorem pad_behind (text : List Byte) (i : Nat) : (pad text).getD (text.length + 1 + i) 0 =
    (List.replicate ((239 - text.length % 128) % 128) 0 ++ bigEndian 16 (8 * text.length)).getD i 0 := by
  have place : text.length + 1 + i - text.length = i + 1 := by omega
  rw [pad, List.getD_append_right _ _ _ _ (by omega), place, List.getD_cons_succ]

theorem pad_mark (text : List Byte) : (pad text).getD text.length 0 = 0x80 := by
  rw [pad, List.getD_append_right _ _ _ _ (Nat.le_refl _), Nat.sub_self, List.getD_cons_zero]

/-- The zeros, with those above the number of bits. -/
theorem pad_zero (fits : 8 * text.length < 2 ^ 64) (after : text.length < i) (before : i + 8 < (pad text).length) :
    (pad text).getD i 0 = 0 := by
  have size := length_pad text
  obtain ⟨k, place⟩ := Nat.exists_eq_add_of_le (Nat.succ_le_of_lt after)
  rw [place, pad_behind]
  by_cases zeros : k < (239 - text.length % 128) % 128
  · rw [List.getD_append _ _ _ _ (by rw [List.length_replicate]; exact zeros), List.getD_eq_getElem?_getD,
      List.getElem?_replicate_of_lt zeros, Option.getD_some]
  · have far : 2 ^ 64 ≤ 256 ^ (16 - 1 - (k - (239 - text.length % 128) % 128)) :=
      calc 2 ^ 64 = 256 ^ 8 := by decide
        _ ≤ 256 ^ (16 - 1 - (k - (239 - text.length % 128) % 128)) := Nat.pow_le_pow_right (by decide) (by omega)
    rw [List.getD_append_right _ _ _ _ (by rw [List.length_replicate]; omega), List.length_replicate,
      getD_bigEndian _ (by omega), Nat.div_eq_of_lt (Nat.lt_of_lt_of_le fits far)]
    rfl

/-- The number of bits. -/
theorem pad_length (fits : 8 * text.length < 2 ^ 64) (below : i < 8) :
    (pad text).getD ((pad text).length - 8 + i) 0 = (BitVec.ofNat 64 (8 * text.length)).extractLsb' (56 - 8 * i) 8 := by
  have size := length_pad text
  have place : (pad text).length - 8 + i = text.length + 1 + ((239 - text.length % 128) % 128 + (8 + i)) := by omega
  have power : 256 ^ (16 - 1 - (8 + i)) = 2 ^ (56 - 8 * i) := by
    have exponent : 56 - 8 * i = 8 * (16 - 1 - (8 + i)) := by omega
    rw [exponent, Nat.pow_mul]
  rw [place, pad_behind, List.getD_append_right _ _ _ _ (by rw [List.length_replicate]; omega), List.length_replicate,
    Nat.add_sub_cancel_left, getD_bigEndian _ (by omega), power]
  apply BitVec.eq_of_toNat_eq
  rw [BitVec.toNat_ofNat, BitVec.extractLsb'_toNat, BitVec.toNat_ofNat, Nat.mod_eq_of_lt fits,
    Nat.shiftRight_eq_div_pow]

/-- The last block, from what is in the buffer of it. -/
theorem lastBlock_spec {state : List (BitVec 64)} {buf : Nat → Byte} {n curlen : Nat}
    (fits : 8 * text.length < 2 ^ 64) (hashed : state = (List.range 8).map (chain h (pad text) n))
    (size : (pad text).length = 128 * (n + 1)) (room : curlen ≤ 120)
    (before : ∀ i < curlen, buf i = (pad text).getD (128 * n + i) 0)
    (zeros : ∀ i < 120, curlen ≤ i → (pad text).getD (128 * n + i) 0 = 0) :
    lastBlock (BitVec.ofNat 64 (8 * text.length)) state curlen buf = digest h text := by
  have count : (pad text).length / 128 = n + 1 := by rw [size, Nat.mul_div_cancel_left _ (by decide)]
  rw [lastBlock, hashed, compress_spec, digest, count, List.flatMap_map]
  rw [chain, @hashBlock_congr (chain h (pad text) n) _ fun i => (pad text).getD (128 * n + i) 0]
  intro i below
  by_cases low : i < 120
  · rw [written_outside (Or.inl low)]
    by_cases first : i < curlen
    · rw [written_outside (Or.inl first), before i first]
    · rw [written, if_pos (by omega), zeros i low (Nat.le_of_not_lt first)]
  · have place : 128 * n + i = (pad text).length - 8 + (i - 120) := by omega
    rw [place, pad_length fits (by omega), written, if_pos (by omega)]

theorem done_spec (absorbed : Absorbed h text md) (fits : 8 * text.length < 2 ^ 64) : done md = digest h text := by
  obtain ⟨state, counted, curlen, bytes⟩ := absorbed
  have whole : text.length = 128 * (text.length / 128) + md.curlen := by rw [curlen, Nat.div_add_mod]
  have known : chain h (pad text) (text.length / 128) = chain h text (text.length / 128) :=
    chain_append (Nat.mul_div_le _ _)
  rw [← known] at state
  clear curlen known
  generalize text.length / 128 = n at *
  have room := md.room
  have length : md.length + BitVec.ofNat 64 md.curlen * 8 = BitVec.ofNat 64 (8 * text.length) := by
    have bits : 8 * text.length = 1024 * n + md.curlen * 8 := by omega
    rw [counted, bits, BitVec.ofNat_add, BitVec.ofNat_mul md.curlen]
    rfl
  have marked : ∀ i < md.curlen + 1, Function.update md.buf md.curlen 0x80 i = (pad text).getD (128 * n + i) 0 := by
    intro i below
    by_cases mark : i = md.curlen
    · rw [mark, Function.update_self, ← whole, pad_mark]
    · rw [Function.update_of_ne mark, bytes i (by omega), pad_text (by omega)]
  rw [done]
  dsimp only
  rw [length]
  by_cases more : 112 < md.curlen + 1
  · have size := length_pad_two whole (Nat.lt_of_succ_lt_succ more) room
    have zero {i : Nat} (after : text.length < i) (before : i + 8 < 128 * (n + 2)) : (pad text).getD i 0 = 0 :=
      pad_zero fits after (by rw [size]; exact before)
    rw [if_pos more]
    have hashed : compress md.state (written (md.curlen + 1) (fun _ => 0) (128 - (md.curlen + 1))
        (Function.update md.buf md.curlen 0x80)) = (List.range 8).map (chain h (pad text) (n + 1)) := by
      rw [state, compress_spec, chain, @hashBlock_congr _ _ fun i => (pad text).getD (128 * n + i) 0]
      intro i below
      by_cases first : i < md.curlen + 1
      · rw [written_outside (Or.inl first), marked i first]
      · rw [written, if_pos (by omega), zero (by omega) (by omega)]
    exact lastBlock_spec fits hashed size (by decide) (fun i below => absurd below (Nat.not_lt_zero i))
      fun i below _ => zero (by omega) (by omega)
  · have size := length_pad_one whole (Nat.not_lt.mp more)
    rw [if_neg more]
    exact lastBlock_spec fits state size (by omega) marked
      fun i below after => pad_zero fits (by omega) (by omega)

/-- However a message is cut into calls, its digest is that of the definition. -/
theorem pieces_digest (h : Words) (pieces : List (List Byte)) (fits : 8 * pieces.flatten.length < 2 ^ 64) :
    done (pieces.foldl process (initial ((List.range 8).map h))) = digest h pieces.flatten :=
  done_spec (absorbed_pieces (absorbed_initial h) pieces) fits

theorem two_pieces_digest : 8 * [[0x61], [0x62, 0x63]].flatten.length < 2 ^ 64 ∧
    done ([[0x61], [0x62, 0x63]].foldl process (initial ((List.range 8).map fun j => init512.getD j 0))) =
      digest (fun j => init512.getD j 0) [[0x61], [0x62, 0x63]].flatten :=
  have fits : 8 * ([[0x61], [0x62, 0x63]] : List (List Byte)).flatten.length < 2 ^ 64 := by decide
  ⟨fits, pieces_digest _ _ fits⟩

end Finish

section Keys

/-- The digests of the standard. -/
def sha512 (message : List Byte) : List Byte := digest (fun j => init512.getD j 0) message

def sha384 (message : List Byte) : List Byte := (digest (fun j => init384.getD j 0) message).take 48

/-- HMAC with a hash that has blocks of 128 bytes, for a key that is no longer than that. -/
def hmac (hash : List Byte → List Byte) (key message : List Byte) : List Byte :=
  let padded (octet : Byte) : List Byte := (List.range 128).map fun i => key.getD i 0 ^^^ octet
  hash (padded 0x5c ++ hash (padded 0x36 ++ message))

/-- One block of key derivation in counter mode: the counter, the label, a zero, the context, and 384 bits. -/
def derived (key : List Byte) (label context : List Byte) (iter : BitVec 32) : List Byte :=
  hmac sha384 key (bigEndian 4 iter.toNat ++ label ++ [0] ++ context ++ bigEndian 4 384)

variable {message first second : List Byte}

theorem pieces_sha384 (pieces : List (List Byte)) (fits : 8 * pieces.flatten.length < 2 ^ 64) :
    (done (pieces.foldl process (initial init384))).take 48 = sha384 pieces.flatten :=
  congrArg (List.take 48) (done_spec (absorbed_pieces (absorbed_initial fun j => init384.getD j 0) pieces) fits)

theorem SHA512_eq (fits : 8 * message.length < 2 ^ 64) : SHA512 message = sha512 message :=
  done_spec (absorbed_process (absorbed_initial fun j => init512.getD j 0) message) fits

theorem SHA384_eq (fits : 8 * message.length < 2 ^ 64) : SHA384 message = sha384 message := by
  have one := pieces_sha384 [message] (by rw [List.flatten_singleton]; exact fits)
  rw [List.flatten_singleton] at one
  exact one

theorem SHA384Both_eq (fits : 8 * (first ++ second).length < 2 ^ 64) :
    SHA384Both first second = sha384 (first ++ second) := by
  have both : [first, second].flatten = first ++ second := by
    rw [List.flatten_cons, List.flatten_singleton]
  have two := pieces_sha384 [first, second] (by rw [both]; exact fits)
  rw [both] at two
  exact two

/-- The words of the key and a padding are the bytes of both. -/
theorem memoryBytes_keyPadded {key : List Byte} (short : key.length = 48) {pad : BitVec 64} {octet : Byte}
    (all : ∀ k < 8, pad.extractLsb' (8 * k) 8 = octet) :
    memoryBytes (keyPadded (fun i => key.getD i 0) pad) 16 =
      (List.range 128).map fun i => key.getD i 0 ^^^ octet := by
  rw [memoryBytes]
  apply List.map_congr_left
  intro i member
  have low := Nat.mod_lt i (show 0 < 8 by decide)
  rw [keyPadded]
  by_cases inside : i / 8 < 6
  · have place : 8 * (i / 8) + i % 8 = i := Nat.div_add_mod i 8
    rw [if_pos inside, BitVec.extractLsb'_xor, load64, word64_byte _ low, all _ low, place]
  · have behind : key.getD i 0 = 0 := List.getD_eq_default _ _ (by omega)
    rw [if_neg inside, all _ low, behind]
    exact BitVec.zero_xor.symm

theorem length_digest (h : Words) (message : List Byte) : (digest h message).length = 64 := by
  rw [digest, List.length_flatMap]
  simp only [store64h, List.length_map, List.length_range]
  rfl

theorem length_sha384 (message : List Byte) : (sha384 message).length = 48 := by
  rw [sha384, List.length_take, length_digest]
  rfl

theorem HMACSHA384_eq {key : List Byte} (short : key.length = 48) (fits : 8 * (128 + message.length) < 2 ^ 64) :
    HMACSHA384 (fun i => key.getD i 0) message = hmac sha384 key message := by
  have inner : ∀ k < 8, (0x3636363636363636 : BitVec 64).extractLsb' (8 * k) 8 = 0x36 := by decide
  have outer : ∀ k < 8, (0x5c5c5c5c5c5c5c5c : BitVec 64).extractLsb' (8 * k) 8 = 0x5c := by decide
  rw [HMACSHA384, hmac]
  dsimp only
  rw [memoryBytes_keyPadded short inner, memoryBytes_keyPadded short outer, SHA384Both_eq, SHA384_eq]
  · rw [List.length_append, List.length_map, List.length_range, length_sha384]
    decide
  · rw [List.length_append, List.length_map, List.length_range]
    exact fits

/-- The keys of AES-GMAC-SIV are derived as the standard has it, with the label behind "ZT". -/
theorem KBKDFHMACSHA384_derived (key : List Byte) (short : key.length = 48) (label context : Byte) (iter : BitVec 32) :
    KBKDFHMACSHA384 (fun i => key.getD i 0) label context iter = derived key [0x5a, 0x54, label] [context] iter := by
  have size : (wordBytes 4 iter ++ [0x5a, 0x54, label, 0, context, 0, 0, 0x01, 0x80]).length = 13 := by
    rw [List.length_append, wordBytes_length]
    rfl
  have bits : bigEndian 4 384 = [0, 0, 0x01, 0x80] := by decide
  rw [KBKDFHMACSHA384, HMACSHA384_eq short (by rw [size]; decide), derived, bits, wordBytes]
  simp only [List.append_assoc, List.cons_append, List.nil_append]

theorem sevens_derived : (List.replicate 48 (0x07 : Byte)).length = 48 ∧
    KBKDFHMACSHA384 (fun i => (List.replicate 48 (0x07 : Byte)).getD i 0) 0x30 0 0 =
      derived (List.replicate 48 0x07) [0x5a, 0x54, 0x30] [0] 0 :=
  have short : (List.replicate 48 (0x07 : Byte)).length = 48 := List.length_replicate
  ⟨short, KBKDFHMACSHA384_derived _ short 0x30 0 0⟩

/-- `publicKeyHash` hashes two strings as one. -/
theorem SHA384Both_publicKey (crypto : Crypto) (identity : Identity) :
    wordOf 384 (SHA384Both identity.address.appendTo (wordBytes 64 identity.publicKey)) =
      identity.publicKeyHash { crypto with sha384 := fun message => wordOf 384 (sha384 message) } := by
  have size : (identity.address.appendTo ++ wordBytes 64 identity.publicKey).length = 69 := by
    rw [List.length_append, wordBytes_length]
    rfl
  rw [SHA384Both_eq (by rw [size]; decide), Identity.publicKeyHash]

end Keys

end ZeroTierNode.Sha512
