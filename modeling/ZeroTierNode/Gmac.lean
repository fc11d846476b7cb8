import ZeroTierNode.AesBlock
import ZeroTierNode.GfMul

/-!
`AES::GMAC` without processor support: a hash of blocks that takes its input in pieces, with a
buffer for what does not fill a block, and the tag that `finish` makes of it.
-/

namespace ZeroTierNode.Gmac
open AesBlock AesCtr GfMul Library.Bytes Library.Runs Library.StreamBuffers

section Blocks

/-- Two words of eight bytes, as they are next to each other in memory. -/
abbrev Pair := BitVec 64 × BitVec 64

def Pair.byte (w : Pair) (i : Nat) : Byte :=
  if i < 8 then w.1.extractLsb' (8 * i) 8 else w.2.extractLsb' (8 * (i - 8)) 8

/-- The words of sixteen bytes. -/
def pairOf (bytes : Nat → Byte) : Pair := (word64 bytes, word64 fun i => bytes (8 + i))

/-- The block of sixteen bytes, as `Utils::loadBigEndian` reads it. -/
def blockOf (bytes : Nat → Byte) : Block :=
  ⟨bytes 0 ++ bytes 1 ++ bytes 2 ++ bytes 3, bytes 4 ++ bytes 5 ++ bytes 6 ++ bytes 7,
    bytes 8 ++ bytes 9 ++ bytes 10 ++ bytes 11, bytes 12 ++ bytes 13 ++ bytes 14 ++ bytes 15⟩

/-- `p_k.sw`. -/
structure AES where
  ek : List (BitVec 32)
  dk : List (BitVec 32)
  h : Pair

/-- `init` without processor support: `p_initSW`. -/
def AES.init (key : BitVec 256) : AES :=
  let ek := p_initSW key
  let h := pairOf (p_encryptSW ek ⟨0, 0, 0, 0⟩).byte
  ⟨ek, decryptKeys ek, (hton64 h.1, hton64 h.2)⟩

def AES.encrypt (aes : AES) (w : Pair) : Pair := pairOf (p_encryptSW aes.ek (blockOf (Pair.byte w))).byte

def AES.decrypt (aes : AES) (w : Pair) : Pair := pairOf (p_decryptSW aes.dk (blockOf (Pair.byte w))).byte

theorem Pair.byte_pairOf (bytes : Nat → Byte) {i : Nat} (inside : i < 16) : Pair.byte (pairOf bytes) i = bytes i := by
  by_cases low : i < 8
  · rw [Pair.byte, if_pos low]
    exact word64_byte _ low
  · have place : 8 + (i - 8) = i := by omega
    rw [Pair.byte, if_neg low]
    show (word64 fun i => bytes (8 + i)).extractLsb' (8 * (i - 8)) 8 = bytes i
    rw [word64_byte _ (by omega), place]

theorem pairOf_congr {bytes others : Nat → Byte} (same : ∀ i < 16, bytes i = others i) :
    pairOf bytes = pairOf others := by
  have low : word64 bytes = word64 others := word64_congr fun i inside => same i (by omega)
  have high : (word64 fun i => bytes (8 + i)) = word64 fun i => others (8 + i) :=
    word64_congr fun i inside => same _ (by omega)
  rw [pairOf, pairOf, low, high]

theorem pairOf_byte (w : Pair) : pairOf (Pair.byte w) = w := by
  have high (i : Nat) : Pair.byte w (8 + i) = w.2.extractLsb' (8 * i) 8 := by
    rw [Pair.byte, if_neg (by omega), Nat.add_sub_cancel_left]
  have low : word64 (Pair.byte w) = word64 fun i => w.1.extractLsb' (8 * i) 8 :=
    word64_congr fun i inside => by rw [Pair.byte, if_pos inside]
  simp only [pairOf, low, high, word64_bytes]

theorem blockOf_congr {bytes others : Nat → Byte} (same : ∀ i < 16, bytes i = others i) :
    blockOf bytes = blockOf others := by
  simp only [blockOf, same, Nat.reduceLT]

/-- The bytes of a word in big-endian order. -/
theorem quad_byte (bytes : Nat → Byte) {i : Nat} (inside : i < 4) :
    (bytes 0 ++ bytes 1 ++ bytes 2 ++ bytes 3).extractLsb' (24 - 8 * i) 8 = bytes i := by
  have position : i = 0 ∨ i = 1 ∨ i = 2 ∨ i = 3 := by omega
  rcases position with rfl | rfl | rfl | rfl
  all_goals
    simp (disch := omega) only [BitVec.extractLsb'_append_eq_of_le, BitVec.extractLsb'_append_eq_right,
      Nat.reduceMul, Nat.reduceSub, Nat.mul_zero, BitVec.extractLsb'_eq_self]

theorem quad_bytes (w : BitVec 32) :
    w.extractLsb' 24 8 ++ w.extractLsb' 16 8 ++ w.extractLsb' 8 8 ++ w.extractLsb' 0 8 = w := by
  have first : w.extractLsb' 24 8 ++ w.extractLsb' 16 8 = w.extractLsb' 16 16 :=
    BitVec.extractLsb'_append_extractLsb'_eq_extractLsb' rfl
  have second : w.extractLsb' 16 16 ++ w.extractLsb' 8 8 = w.extractLsb' 8 24 :=
    BitVec.extractLsb'_append_extractLsb'_eq_extractLsb' rfl
  have third : w.extractLsb' 8 24 ++ w.extractLsb' 0 8 = w.extractLsb' 0 32 :=
    BitVec.extractLsb'_append_extractLsb'_eq_extractLsb' rfl
  rw [first, second, third, BitVec.extractLsb'_eq_self]

theorem blockOf_byte (b : Block) : blockOf b.byte = b := by
  show Block.mk _ _ _ _ = b
  exact congr (congr (congr (congrArg Block.mk (quad_bytes b.w0)) (quad_bytes b.w1)) (quad_bytes b.w2))
    (quad_bytes b.w3)

theorem byte_blockOf (bytes : Nat → Byte) {i : Nat} (inside : i < 16) : (blockOf bytes).byte i = bytes i := by
  have column (c : Nat) (row : i / 4 = c) :
      (bytes (4 * c) ++ bytes (4 * c + 1) ++ bytes (4 * c + 2) ++ bytes (4 * c + 3)).extractLsb' (24 - 8 * (i % 4)) 8 =
        bytes i := by
    have place : i = 4 * c + i % 4 := by omega
    exact (quad_byte (fun k => bytes (4 * c + k)) (Nat.mod_lt i (by decide))).trans (congrArg bytes place.symm)
  have rows : i / 4 = 0 ∨ i / 4 = 1 ∨ i / 4 = 2 ∨ i / 4 = 3 := by omega
  unfold Block.byte
  rcases rows with row | row | row | row
  · rw [if_pos (by omega)]
    exact column 0 row
  · rw [if_neg (by omega), if_pos (by omega)]
    exact column 1 row
  · rw [if_neg (by omega), if_neg (by omega), if_pos (by omega)]
    exact column 2 row
  · rw [if_neg (by omega), if_neg (by omega), if_neg (by omega)]
    exact column 3 row

theorem AES.init_ek (key : BitVec 256) : (AES.init key).ek = p_initSW key := by simp only [AES.init]

theorem AES.init_dk (key : BitVec 256) : (AES.init key).dk = decryptKeys (p_initSW key) := by simp only [AES.init]

/-- What is encrypted can be decrypted. -/
theorem AES.decrypt_encrypt (key : BitVec 256) (w : Pair) :
    (AES.init key).decrypt ((AES.init key).encrypt w) = w := by
  have read (b : Block) : blockOf (Pair.byte (pairOf b.byte)) = b :=
    (blockOf_congr fun i inside => Pair.byte_pairOf b.byte inside).trans (blockOf_byte b)
  have written : pairOf (blockOf (Pair.byte w)).byte = w :=
    (pairOf_congr fun i inside => byte_blockOf _ inside).trans (pairOf_byte w)
  unfold AES.decrypt AES.encrypt
  rw [read, AES.init_ek, AES.init_dk, p_decryptSW_p_encryptSW (p_initSW_length key), written]

end Blocks

section State

/-- The fields of `AES::GMAC`; the data that it is given is in memory. -/
structure GMAC where
  rp : Nat
  len : BitVec 32
  r : Nat → Byte
  iv : Nat → Byte
  y : Pair

/-- The four lines that take a block into `y0` and `y1`. -/
def absorb (h y : Pair) (w0 w1 : BitVec 64) : Pair := s_gfmul h.1 h.2 (y.1 ^^^ w0) (y.2 ^^^ w1)

/-- Twelve bytes, and the counter of the first block behind them. -/
def firstCounter (iv : Nat → Byte) (i : Nat) : Byte := if i < 12 then iv i else if i < 15 then 0 else 1

def GMAC.init (g : GMAC) (iv : Nat → Byte) : GMAC := { g with rp := 0, len := 0, iv := firstCounter iv, y := (0, 0) }

/-- The loop that fills up `_r`: what is left of `len` and where, or nothing where the function returns. -/
def fillUp (m : Memory) : Nat → Nat → GMAC → Option (Nat × Nat) × GMAC
  | 0, _, g => (none, g)
  | len + 1, source, g =>
      let g := { g with r := Function.update g.r g.rp (m source), rp := g.rp + 1 }
      if g.rp = 16 then (some (len, source + 1), g) else fillUp m len (source + 1) g

/-- The loop over whole blocks, for the first `count` of them. -/
def absorbBlocks (h : Pair) (m : Memory) (source : Nat) (y : Pair) : Nat → Pair
  | 0 => y
  | count + 1 =>
      absorb h (absorbBlocks h m source y count) (load64 m (source + 16 * count)) (load64 m (source + 16 * count + 8))

/-- `update` behind the first loop. -/
def updateRest (h : Pair) (m : Memory) (len source : Nat) (y : Pair) (g : GMAC) : GMAC :=
  { g with
    y := absorbBlocks h m source y (len / 16)
    r := eachByte 0 (fun _ i => m (source + 16 * (len / 16) + i)) (len % 16) g.r
    rp := len % 16 }

def update (h : Pair) (m : Memory) (g : GMAC) (call : Call) : GMAC :=
  let g := { g with len := g.len + call.len }
  if g.rp = 0 then updateRest h m call.len.toNat call.input g.y g
  else
    match fillUp m call.len.toNat call.input g with
    | (none, g) => g
    | (some (len, source), g) => updateRest h m len source (absorb h g.y (load64 g.r 0) (load64 g.r 8)) g

/-- The tag, and what `finish` leaves in the fields. -/
def GMAC.finish (aes : AES) (g : GMAC) : Pair × GMAC :=
  let padded : GMAC := { g with rp := 16, r := eachByte g.rp (fun _ _ => 0) (16 - g.rp) g.r }
  let filled := if g.rp = 0 then g else padded
  let y := if g.rp = 0 then g.y else absorb aes.h g.y (load64 filled.r 0) (load64 filled.r 8)
  let y := s_gfmul aes.h.1 aes.h.2 (y.1 ^^^ hton64 (g.len.setWidth 64 <<< 3)) y.2
  let iv2 := aes.encrypt (pairOf (firstCounter g.iv))
  ((iv2.1 ^^^ y.1, iv2.2 ^^^ y.2), filled)

/-- The tag of what the calls read, one call of `update` for each. -/
def tagOf (aes : AES) (g : GMAC) (iv : Nat → Byte) (m : Memory) (calls : List Call) : Pair :=
  ((run (update aes.h m) (g.init iv) calls).finish aes).1

end State

section Hash

/-- The hash of the first `count` blocks of the input. -/
def hash (h : Pair) (input : Nat → Byte) : Nat → Pair
  | 0 => (0, 0)
  | count + 1 =>
      absorb h (hash h input count) (word64 fun i => input (16 * count + i))
        (word64 fun i => input (16 * count + 8 + i))

/-- What `update` leaves after `n` bytes of the input. -/
structure Absorbed (h : Pair) (iv : Nat → Byte) (input : Nat → Byte) (n : Nat) (g : GMAC) : Prop where
  rp : g.rp = n % 16
  len : g.len = BitVec.ofNat 32 n
  iv : g.iv = firstCounter iv
  y : g.y = hash h input (n / 16)
  rest : ∀ i < n % 16, g.r i = input (16 * (n / 16) + i)

variable {h : Pair} {iv input : Nat → Byte} {m : Memory} {n : Nat} {g : GMAC}

theorem hash_congr {other : Nat → Byte} {count : Nat} (same : ∀ i < 16 * count, input i = other i) :
    hash h input count = hash h other count := by
  induction count with
  | zero => rfl
  | succ count ih =>
      have low : (word64 fun i => input (16 * count + i)) = word64 fun i => other (16 * count + i) :=
        word64_congr fun i inside => same _ (by omega)
      have high : (word64 fun i => input (16 * count + 8 + i)) = word64 fun i => other (16 * count + 8 + i) :=
        word64_congr fun i inside => same _ (by omega)
      rw [hash, hash, ih fun i inside => same i (by omega), low, high]

theorem Absorbed.start (g : GMAC) : Absorbed h iv input 0 (g.init iv) :=
  ⟨rfl, rfl, rfl, rfl, fun _ below => absurd below (Nat.not_lt_zero _)⟩

/-- Whole blocks in memory take the hash on. -/
theorem absorbBlocks_hash {source count : Nat} (whole : n % 16 = 0)
    (same : ∀ i < 16 * count, m (source + i) = input (n + i)) :
    absorbBlocks h m source (hash h input (n / 16)) count = hash h input (n / 16 + count) := by
  induction count with
  | zero => rfl
  | succ count ih =>
      have low : load64 m (source + 16 * count) = word64 fun i => input (16 * (n / 16 + count) + i) := by
        apply word64_congr
        intro i inside
        have place : 16 * (n / 16 + count) + i = n + (16 * count + i) := by omega
        rw [Nat.add_assoc, same _ (by omega), place]
      have high : load64 m (source + 16 * count + 8) = word64 fun i => input (16 * (n / 16 + count) + 8 + i) := by
        apply word64_congr
        intro i inside
        have place : 16 * (n / 16 + count) + 8 + i = n + (16 * count + 8 + i) := by omega
        have position : source + 16 * count + 8 + i = source + (16 * count + 8 + i) := by omega
        rw [position, same _ (by omega), place]
      rw [absorbBlocks, ih fun i inside => same i (by omega), low, high, ← Nat.add_assoc]
      rfl

/-- The rest of `update` from a block boundary on. -/
theorem updateRest_spec {len source : Nat} {y : Pair} (whole : n % 16 = 0) (length : g.len = BitVec.ofNat 32 (n + len))
    (nonce : g.iv = firstCounter iv) (hashed : y = hash h input (n / 16))
    (same : ∀ i < len, m (source + i) = input (n + i)) :
    Absorbed h iv input (n + len) (updateRest h m len source y g) := by
  have blocks : (n + len) / 16 = n / 16 + len / 16 := by omega
  have bytes : (n + len) % 16 = len % 16 := by omega
  refine ⟨bytes.symm, length, nonce, ?_, ?_⟩
  · rw [blocks, hashed]
    exact absorbBlocks_hash whole fun i inside => same i (by omega)
  · intro i inside
    rw [bytes] at inside
    have place : 16 * ((n + len) / 16) + i = n + (16 * (len / 16) + i) := by omega
    have read : eachByte 0 (fun _ i => m (source + 16 * (len / 16) + i)) (len % 16) g.r (0 + i) =
        m (source + 16 * (len / 16) + i) := by
      rw [@eachByte_eq _ _ _ (fun i => m (source + 16 * (len / 16) + i)) _ fun _ _ => rfl, written_inside inside]
    rw [Nat.zero_add] at read
    show eachByte 0 (fun _ i => m (source + 16 * (len / 16) + i)) (len % 16) g.r i = _
    rw [read, place, Nat.add_assoc]
    exact same _ (by omega)

/-- Where the first loop ends: before the end of the block if the data does, else behind it. -/
theorem fillUp_spec {len source : Nat} (partly : g.rp < 16) :
    fillUp m len source g =
      if g.rp + len < 16 then
        (none, { g with rp := g.rp + len, r := written g.rp (fun i => m (source + i)) len g.r })
      else
        (some (g.rp + len - 16, source + (16 - g.rp)),
          { g with rp := 16, r := written g.rp (fun i => m (source + i)) (16 - g.rp) g.r }) := by
  induction len generalizing source g with
  | zero =>
      rw [if_pos (by omega), written_zero]
      rfl
  | succ len ih =>
      have bytes (count : Nat) := written_succ g.rp count (fun i => m (source + i)) g.r
      have next (i : Nat) : source + 1 + i = source + (i + 1) := by omega
      by_cases last : g.rp + 1 = 16
      · have one : 16 - g.rp = 0 + 1 := by omega
        have left : g.rp + (len + 1) - 16 = len := by omega
        rw [if_neg (by omega), one, ← bytes 0, written_zero, left, ← last]
        simp only [fillUp]
        rw [if_pos last]
        rfl
      · have rest := @ih { g with r := Function.update g.r g.rp (m source), rp := g.rp + 1 } (source + 1)
          (show g.rp + 1 < 16 by omega)
        have filled : 16 - g.rp = 16 - (g.rp + 1) + 1 := by omega
        have size : g.rp + (len + 1) = g.rp + 1 + len := by omega
        have reached : source + (16 - (g.rp + 1) + 1) = source + 1 + (16 - (g.rp + 1)) := by omega
        rw [filled, ← bytes len, ← bytes (16 - (g.rp + 1)), size, reached]
        simp only [fillUp]
        rw [if_neg last, rest]
        simp only [next]
        rfl

/-- The buffer with some of the data behind what it held. -/
theorem Absorbed.filled {source count : Nat} (absorbed : Absorbed h iv input n g)
    (same : ∀ i < count, m (source + i) = input (n + i)) {j : Nat} (inside : j < n % 16 + count) :
    written g.rp (fun i => m (source + i)) count g.r j = input (16 * (n / 16) + j) := by
  by_cases before : j < n % 16
  · rw [written_outside (Or.inl (absorbed.rp.symm ▸ before))]
    exact absorbed.rest j before
  · have place : j = n % 16 + (j - n % 16) := by omega
    have position : n + (j - n % 16) = 16 * (n / 16) + j := by omega
    rw [absorbed.rp, place, written_inside (by omega), same _ (by omega), position, ← place]

/-- A full buffer takes the hash one block on. -/
theorem hash_buffer {r : Memory} {block : Nat} (bytes : ∀ j < 16, r j = input (16 * block + j)) :
    absorb h (hash h input block) (load64 r 0) (load64 r 8) = hash h input (block + 1) := by
  have low : load64 r 0 = word64 fun i => input (16 * block + i) := by
    apply word64_congr
    intro i inside
    rw [Nat.zero_add, bytes i (by omega)]
  have high : load64 r 8 = word64 fun i => input (16 * block + 8 + i) := by
    apply word64_congr
    intro i inside
    rw [bytes (8 + i) (by omega), Nat.add_assoc]
  rw [hash, low, high]

/-- One call of `update` takes in the bytes it is given. -/
theorem update_spec {call : Call} (absorbed : Absorbed h iv input n g)
    (same : ∀ i < call.len.toNat, m (call.input + i) = input (n + i)) :
    Absorbed h iv input (n + call.len.toNat) (update h m g call) := by
  have length : g.len + call.len = BitVec.ofNat 32 (n + call.len.toNat) := by
    rw [absorbed.len, BitVec.ofNat_add, BitVec.ofNat_toNat, BitVec.setWidth_eq]
  by_cases whole : n % 16 = 0
  · have empty : g.rp = 0 := absorbed.rp.trans whole
    simp only [update]
    rw [if_pos empty]
    exact updateRest_spec whole length absorbed.iv absorbed.y same
  · have position := absorbed.rp
    have partly : ¬ g.rp = 0 := by omega
    have filled := @fillUp_spec m { g with len := g.len + call.len } call.len.toNat call.input
      (show g.rp < 16 by omega)
    simp only [update]
    rw [if_neg partly, filled]
    by_cases short : g.rp + call.len.toNat < 16
    · rw [if_pos short]
      have block : (n + call.len.toNat) / 16 = n / 16 := by omega
      have bytes : (n + call.len.toNat) % 16 = n % 16 + call.len.toNat := by omega
      refine ⟨?_, length, absorbed.iv, ?_, ?_⟩
      · rw [bytes, ← position]
      · rw [block]
        exact absorbed.y
      · intro i inside
        rw [bytes] at inside
        rw [block]
        exact absorbed.filled same inside
    · rw [if_neg short]
      have missing : n % 16 + (16 - g.rp) = 16 := by omega
      have next : (n + (16 - g.rp)) / 16 = n / 16 + 1 := by omega
      have total : n + (16 - g.rp) + (g.rp + call.len.toNat - 16) = n + call.len.toNat := by omega
      have buffer : ∀ j < 16, written g.rp (fun i => m (call.input + i)) (16 - g.rp) g.r j =
          input (16 * (n / 16) + j) :=
        fun j inside => absorbed.filled (fun i below => same i (by omega)) (by omega)
      have block := @hash_buffer h _ _ _ buffer
      rw [← absorbed.y, ← next] at block
      rw [← total] at length ⊢
      refine updateRest_spec (by omega) length absorbed.iv block ?_
      intro i inside
      change i < g.rp + call.len.toNat - 16 at inside
      show m (call.input + (16 - g.rp) + i) = input (n + (16 - g.rp) + i)
      rw [Nat.add_assoc, Nat.add_assoc]
      exact same _ (by omega)

end Hash

section Tag

/-- The input with zeros behind its first `n` bytes. -/
def padded (input : Nat → Byte) (n : Nat) (i : Nat) : Byte := if i < n then input i else 0

/-- The tag of `n` bytes: the hash of the padded input and of the length, with the first block of the key stream. -/
def digest (aes : AES) (iv input : Nat → Byte) (n : Nat) : Pair :=
  let y := hash aes.h (padded input n) ((n + 15) / 16)
  let y := s_gfmul aes.h.1 aes.h.2 (y.1 ^^^ hton64 ((BitVec.ofNat 32 n).setWidth 64 <<< 3)) y.2
  let iv2 := aes.encrypt (pairOf (firstCounter iv))
  (iv2.1 ^^^ y.1, iv2.2 ^^^ y.2)

variable {aes : AES} {iv input : Nat → Byte} {m : Memory} {n : Nat} {g : GMAC}

theorem digest_congr {other : Nat → Byte} (same : ∀ i < n, input i = other i) :
    digest aes iv input n = digest aes iv other n := by
  have bytes : padded input n = padded other n := by
    funext i
    by_cases inside : i < n
    · rw [padded, padded, if_pos inside, if_pos inside, same i inside]
    · rw [padded, padded, if_neg inside, if_neg inside]
  rw [digest, digest, bytes]

theorem firstCounter_firstCounter (iv : Nat → Byte) : firstCounter (firstCounter iv) = firstCounter iv := by
  funext i
  by_cases low : i < 12
  · rw [firstCounter, if_pos low]
  · rw [firstCounter, firstCounter, if_neg low, if_neg low]

/-- The buffer that `finish` fills up with zeros. -/
theorem Absorbed.padded {h : Pair} (absorbed : Absorbed h iv input n g) {j : Nat} (inside : j < 16) :
    eachByte g.rp (fun _ _ => 0) (16 - g.rp) g.r j = padded input n (16 * (n / 16) + j) := by
  have position := absorbed.rp
  rw [@eachByte_eq _ _ _ (fun _ => 0) _ fun _ _ => rfl]
  by_cases before : j < n % 16
  · rw [written_outside (by omega), absorbed.rest j before, Gmac.padded, if_pos (by omega)]
  · rw [written, if_pos (by omega), Gmac.padded, if_neg (by omega)]

/-- `finish` makes the tag of the bytes that were taken in. -/
theorem finish_digest (absorbed : Absorbed aes.h iv input n g) : (g.finish aes).1 = digest aes iv input n := by
  have before : hash aes.h (padded input n) (n / 16) = g.y := by
    rw [absorbed.y]
    apply hash_congr
    intro i inside
    rw [padded, if_pos (by omega)]
  simp only [GMAC.finish, digest]
  by_cases whole : n % 16 = 0
  · have empty : g.rp = 0 := absorbed.rp.trans whole
    have blocks : (n + 15) / 16 = n / 16 := by omega
    rw [if_pos empty, blocks, before, absorbed.len, absorbed.iv, firstCounter_firstCounter]
  · have partly : ¬ g.rp = 0 := by
      rw [absorbed.rp]
      exact whole
    have blocks : (n + 15) / 16 = n / 16 + 1 := by omega
    have last := @hash_buffer aes.h _ _ _ fun j inside => absorbed.padded inside
    rw [before] at last
    rw [if_neg partly, if_neg partly, blocks, ← last, absorbed.len, absorbed.iv, firstCounter_firstCounter]

/-- Any calls take in the bytes they read, one after the other. -/
theorem run_update {calls : List Call} (absorbed : Absorbed aes.h iv input n g)
    (same : ∀ i < total calls, inputAt m calls i = input (n + i)) :
    Absorbed aes.h iv input (n + total calls) (run (update aes.h m) g calls) := by
  induction calls generalizing n g with
  | nil => exact absorbed
  | cons call calls ih =>
      rw [total_cons] at same ⊢
      have here : ∀ i < call.len.toNat, m (call.input + i) = input (n + i) := by
        intro i inside
        have byte := same i (by omega)
        rwa [inputAt, if_pos inside] at byte
      have later : ∀ i < total calls, inputAt m calls i = input (n + call.len.toNat + i) := by
        intro i inside
        have byte := same (call.len.toNat + i) (by omega)
        rw [inputAt, if_neg (by omega), Nat.add_sub_cancel_left, ← Nat.add_assoc] at byte
        exact byte
      rw [run_cons, ← Nat.add_assoc]
      exact ih (update_spec absorbed here) later

theorem tagOf_eq (g : GMAC) (calls : List Call) :
    tagOf aes g iv m calls = digest aes iv (inputAt m calls) (total calls) := by
  have absorbed := @run_update aes iv (inputAt m calls) m 0 (g.init iv) calls (Absorbed.start g)
    (fun i _ => by rw [Nat.zero_add])
  rw [Nat.zero_add] at absorbed
  exact finish_digest absorbed

end Tag

end ZeroTierNode.Gmac
