import ZeroTierNode.Library.Runs
import ZeroTierNode.Library.StreamBuffers

/-!
AES in counter mode as `AES::CTR` computes it without processor support: the block
function, its two copies inside `crypt` for aligned and unaligned data, and the
partial block that is left in the output between calls.
-/

namespace ZeroTierNode.AesCtr
open Library.Bytes Library.Runs Library.StreamBuffers

section Cipher

/-- Sixteen bytes, as four words in big-endian order. -/
structure Block where
  w0 : BitVec 32
  w1 : BitVec 32
  w2 : BitVec 32
  w3 : BitVec 32
deriving DecidableEq, Repr

/-- A byte of the block in memory, as `Utils::storeBigEndian` puts it there. -/
def Block.byte (b : Block) (i : Nat) : Byte :=
  let word := if i < 4 then b.w0 else if i < 8 then b.w1 else if i < 12 then b.w2 else b.w3
  word.extractLsb' (24 - 8 * (i % 4)) 8

def Te0 : List (BitVec 32) :=
  [0xc66363a5, 0xf87c7c84, 0xee777799, 0xf67b7b8d, 0xfff2f20d, 0xd66b6bbd, 0xde6f6fb1, 0x91c5c554, 0x60303050,
   0x02010103, 0xce6767a9, 0x562b2b7d, 0xe7fefe19, 0xb5d7d762, 0x4dababe6, 0xec76769a, 0x8fcaca45, 0x1f82829d,
   0x89c9c940, 0xfa7d7d87, 0xeffafa15, 0xb25959eb, 0x8e4747c9, 0xfbf0f00b, 0x41adadec, 0xb3d4d467, 0x5fa2a2fd,
   0x45afafea, 0x239c9cbf, 0x53a4a4f7, 0xe4727296, 0x9bc0c05b, 0x75b7b7c2, 0xe1fdfd1c, 0x3d9393ae, 0x4c26266a,
   0x6c36365a, 0x7e3f3f41, 0xf5f7f702, 0x83cccc4f, 0x6834345c, 0x51a5a5f4, 0xd1e5e534, 0xf9f1f108, 0xe2717193,
   0xabd8d873, 0x62313153, 0x2a15153f, 0x0804040c, 0x95c7c752, 0x46232365, 0x9dc3c35e, 0x30181828, 0x379696a1,
   0x0a05050f, 0x2f9a9ab5, 0x0e070709, 0x24121236, 0x1b80809b, 0xdfe2e23d, 0xcdebeb26, 0x4e272769, 0x7fb2b2cd,
   0xea75759f, 0x1209091b, 0x1d83839e, 0x582c2c74, 0x341a1a2e, 0x361b1b2d, 0xdc6e6eb2, 0xb45a5aee, 0x5ba0a0fb,
   0xa45252f6, 0x763b3b4d, 0xb7d6d661, 0x7db3b3ce, 0x5229297b, 0xdde3e33e, 0x5e2f2f71, 0x13848497, 0xa65353f5,
   0xb9d1d168, 0x00000000, 0xc1eded2c, 0x40202060, 0xe3fcfc1f, 0x79b1b1c8, 0xb65b5bed, 0xd46a6abe, 0x8dcbcb46,
   0x67bebed9, 0x7239394b, 0x944a4ade, 0x984c4cd4, 0xb05858e8, 0x85cfcf4a, 0xbbd0d06b, 0xc5efef2a, 0x4faaaae5,
   0xedfbfb16, 0x864343c5, 0x9a4d4dd7, 0x66333355, 0x11858594, 0x8a4545cf, 0xe9f9f910, 0x04020206, 0xfe7f7f81,
   0xa05050f0, 0x783c3c44, 0x259f9fba, 0x4ba8a8e3, 0xa25151f3, 0x5da3a3fe, 0x804040c0, 0x058f8f8a, 0x3f9292ad,
   0x219d9dbc, 0x70383848, 0xf1f5f504, 0x63bcbcdf, 0x77b6b6c1, 0xafdada75, 0x42212163, 0x20101030, 0xe5ffff1a,
   0xfdf3f30e, 0xbfd2d26d, 0x81cdcd4c, 0x180c0c14, 0x26131335, 0xc3ecec2f, 0xbe5f5fe1, 0x359797a2, 0x884444cc,
   0x2e171739, 0x93c4c457, 0x55a7a7f2, 0xfc7e7e82, 0x7a3d3d47, 0xc86464ac, 0xba5d5de7, 0x3219192b, 0xe6737395,
   0xc06060a0, 0x19818198, 0x9e4f4fd1, 0xa3dcdc7f, 0x44222266, 0x542a2a7e, 0x3b9090ab, 0x0b888883, 0x8c4646ca,
   0xc7eeee29, 0x6bb8b8d3, 0x2814143c, 0xa7dede79, 0xbc5e5ee2, 0x160b0b1d, 0xaddbdb76, 0xdbe0e03b, 0x64323256,
   0x743a3a4e, 0x140a0a1e, 0x924949db, 0x0c06060a, 0x4824246c, 0xb85c5ce4, 0x9fc2c25d, 0xbdd3d36e, 0x43acacef,
   0xc46262a6, 0x399191a8, 0x319595a4, 0xd3e4e437, 0xf279798b, 0xd5e7e732, 0x8bc8c843, 0x6e373759, 0xda6d6db7,
   0x018d8d8c, 0xb1d5d564, 0x9c4e4ed2, 0x49a9a9e0, 0xd86c6cb4, 0xac5656fa, 0xf3f4f407, 0xcfeaea25, 0xca6565af,
   0xf47a7a8e, 0x47aeaee9, 0x10080818, 0x6fbabad5, 0xf0787888, 0x4a25256f, 0x5c2e2e72, 0x381c1c24, 0x57a6a6f1,
   0x73b4b4c7, 0x97c6c651, 0xcbe8e823, 0xa1dddd7c, 0xe874749c, 0x3e1f1f21, 0x964b4bdd, 0x61bdbddc, 0x0d8b8b86,
   0x0f8a8a85, 0xe0707090, 0x7c3e3e42, 0x71b5b5c4, 0xcc6666aa, 0x904848d8, 0x06030305, 0xf7f6f601, 0x1c0e0e12,
   0xc26161a3, 0x6a35355f, 0xae5757f9, 0x69b9b9d0, 0x17868691, 0x99c1c158, 0x3a1d1d27, 0x279e9eb9, 0xd9e1e138,
   0xebf8f813, 0x2b9898b3, 0x22111133, 0xd26969bb, 0xa9d9d970, 0x078e8e89, 0x339494a7, 0x2d9b9bb6, 0x3c1e1e22,
   0x15878792, 0xc9e9e920, 0x87cece49, 0xaa5555ff, 0x50282878, 0xa5dfdf7a, 0x038c8c8f, 0x59a1a1f8, 0x09898980,
   0x1a0d0d17, 0x65bfbfda, 0xd7e6e631, 0x844242c6, 0xd06868b8, 0x824141c3, 0x299999b0, 0x5a2d2d77, 0x1e0f0f11,
   0x7bb0b0cb, 0xa85454fc, 0x6dbbbbd6, 0x2c16163a]

/-- `Te0[x]`; the others are rotated. -/
def te0 (x : BitVec 32) : BitVec 32 := Te0.getD x.toNat 0

def Te1_r (x : BitVec 32) : BitVec 32 := (te0 x).rotateRight 8
def Te2_r (x : BitVec 32) : BitVec 32 := (te0 x).rotateRight 16
def Te3_r (x : BitVec 32) : BitVec 32 := (te0 x).rotateRight 24

def rcon : List (BitVec 32) :=
  [0x01000000, 0x02000000, 0x04000000, 0x08000000, 0x10000000, 0x20000000, 0x40000000, 0x80000000, 0x1B000000,
   0x36000000, 0x6c000000, 0xd8000000, 0xab000000, 0x4d000000, 0x9a000000]

/-- The loop of `p_initSW` for one `i`: the eight words behind those at `rk`. -/
def expand (i : Nat) (rk : List (BitVec 32)) : List (BitVec 32) :=
  let k := fun j => rk.getD j 0
  let temp := k 7
  let k8 := k 0 ^^^ (Te2_r ((temp >>> 16) &&& 0xff) &&& 0xff000000) ^^^
    (Te3_r ((temp >>> 8) &&& 0xff) &&& 0x00ff0000) ^^^ (te0 (temp &&& 0xff) &&& 0x0000ff00) ^^^
    (Te1_r (temp >>> 24) &&& 0x000000ff) ^^^ rcon.getD i 0
  let k9 := k 1 ^^^ k8
  let k10 := k 2 ^^^ k9
  let k11 := k 3 ^^^ k10
  let temp := k11
  let k12 := k 4 ^^^ (Te2_r (temp >>> 24) &&& 0xff000000) ^^^ (Te3_r ((temp >>> 16) &&& 0xff) &&& 0x00ff0000) ^^^
    (te0 ((temp >>> 8) &&& 0xff) &&& 0x0000ff00) ^^^ (Te1_r (temp &&& 0xff) &&& 0x000000ff)
  let k13 := k 5 ^^^ k12
  let k14 := k 6 ^^^ k13
  let k15 := k 7 ^^^ k14
  [k8, k9, k10, k11, k12, k13, k14, k15]

/-- The words from `rk` on, after `turns` more turns of the loop. -/
def expandFrom : Nat → Nat → List (BitVec 32) → List (BitVec 32)
  | 0, _, rk => rk
  | turns + 1, i, rk => rk ++ expandFrom turns (i + 1) (expand i rk)

/-- The part of `p_initSW` that fills `p_k.sw.ek`; the seventh turn of its loop stops after four words. -/
def p_initSW (key : BitVec 256) : List (BitVec 32) :=
  (expandFrom 7 0 ((List.range 8).map fun j => key.extractLsb' (224 - 32 * j) 32)).take 60

/-- An assignment to one of the words in all but the last round. -/
def roundWord (a b c d key : BitVec 32) : BitVec 32 :=
  te0 (a >>> 24) ^^^ Te1_r ((b >>> 16) &&& 0xff) ^^^ Te2_r ((c >>> 8) &&& 0xff) ^^^ Te3_r (d &&& 0xff) ^^^ key

/-- An assignment in the last round. -/
def lastWord (a b c d key : BitVec 32) : BitVec 32 :=
  (Te2_r (a >>> 24) &&& 0xff000000) ^^^ (Te3_r ((b >>> 16) &&& 0xff) &&& 0x00ff0000) ^^^
    (te0 ((c >>> 8) &&& 0xff) &&& 0x0000ff00) ^^^ (Te1_r (d &&& 0xff) &&& 0x000000ff) ^^^ key

/-- The four assignments of a round, with the round keys from `rk[k]` on. -/
def roundWith (word : BitVec 32 → BitVec 32 → BitVec 32 → BitVec 32 → BitVec 32 → BitVec 32)
    (rk : List (BitVec 32)) (k : Nat) (s : Block) : Block :=
  ⟨word s.w0 s.w1 s.w2 s.w3 (rk.getD k 0), word s.w1 s.w2 s.w3 s.w0 (rk.getD (k + 1) 0),
    word s.w2 s.w3 s.w0 s.w1 (rk.getD (k + 2) 0), word s.w3 s.w0 s.w1 s.w2 (rk.getD (k + 3) 0)⟩

/-- The fourteen rounds; the block function and the two loops of `crypt` have the same lines here. -/
def rounds (rk : List (BitVec 32)) (s : Block) : Block :=
  roundWith lastWord rk 56 ((List.range 13).foldl (fun s i => roundWith roundWord rk (4 * (i + 1)) s) s)

def p_encryptSW (rk : List (BitVec 32)) (input : Block) : Block :=
  rounds rk ⟨input.w0 ^^^ rk.getD 0 0, input.w1 ^^^ rk.getD 1 0, input.w2 ^^^ rk.getD 2 0, input.w3 ^^^ rk.getD 3 0⟩

end Cipher

section Counter

/-- The fields of `AES::CTR`; `_ctr` as its words after `ntoh`. -/
structure CTR where
  ctr : Block
  out : Nat
  len : BitVec 32

def CTR.init (iv : Block) (output : Nat) : CTR := ⟨iv, output, 0⟩

/-- What `crypt` is called with: where the input is, and its length. -/
structure Call where
  input : Nat
  len : BitVec 32

/-- `in`, `totalLen` and `ctr` in the first part of `crypt`, and the memory. -/
structure Cursor where
  memory : Memory
  input : Nat
  totalLen : BitVec 32
  ctr : Block

/-- The loop that fills up a partial block: what is left of `len` behind it, or nothing where the function returns. -/
def fill (rk : List (BitVec 32)) (out : Nat) : Nat → Cursor → Option Nat × Cursor
  | 0, s => (none, s)
  | len + 1, s =>
      let m := Function.update s.memory (out + s.totalLen.toNat) (s.memory s.input)
      let totalLen := s.totalLen + 1
      if totalLen &&& 15 = 0 then
        let keyStream := p_encryptSW rk s.ctr
        let outblk := out + (totalLen - 16).toNat
        (some len, ⟨eachByte outblk (fun m i => m (outblk + i) ^^^ keyStream.byte i) 16 m, s.input + 1, totalLen,
          { s.ctr with w3 := s.ctr.w3 + 1 }⟩)
      else fill rk out len ⟨m, s.input + 1, totalLen, s.ctr⟩

/-- `in`, `out` and `ctr` in the loops over whole blocks, and the memory. -/
structure Loop where
  memory : Memory
  input : Nat
  out : Nat
  ctr : BitVec 32

/-- The body of the loop for data that is aligned to eight bytes. -/
def alignedBlock (rk : List (BitVec 32)) (ctr0rk0 ctr1rk1 ctr2rk2 : BitVec 32) (l : Loop) : Loop :=
  let in0 := load64 l.memory l.input
  let in1 := load64 l.memory (l.input + 8)
  let s := rounds rk ⟨ctr0rk0, ctr1rk1, ctr2rk2, l.ctr ^^^ rk.getD 3 0⟩
  let m := store64 (in0 ^^^ hton64 ((s.w0.setWidth 64 <<< 32) ||| s.w1.setWidth 64)) l.out l.memory
  let m := store64 (in1 ^^^ hton64 ((s.w2.setWidth 64 <<< 32) ||| s.w3.setWidth 64)) (l.out + 8) m
  ⟨m, l.input + 16, l.out + 16, l.ctr + 1⟩

/-- The body of the loop for other data, byte by byte. -/
def unalignedBlock (rk : List (BitVec 32)) (ctr0rk0 ctr1rk1 ctr2rk2 : BitVec 32) (l : Loop) : Loop :=
  let s := rounds rk ⟨ctr0rk0, ctr1rk1, ctr2rk2, l.ctr ^^^ rk.getD 3 0⟩
  ⟨eachByte l.out (fun m i => m (l.input + i) ^^^ s.byte i) 16 l.memory, l.input + 16, l.out + 16, l.ctr + 1⟩

/-- One of the loops, for `count` whole blocks. -/
def cryptBlocks (rk : List (BitVec 32)) (ctr : Block) (count : Nat) (l : Loop) : Loop :=
  let block := if l.out % 8 = 0 ∧ l.input % 8 = 0 then alignedBlock else unalignedBlock
  Nat.repeat (block rk (ctr.w0 ^^^ rk.getD 0 0) (ctr.w1 ^^^ rk.getD 1 0) (ctr.w2 ^^^ rk.getD 2 0)) count l

/-- `crypt` behind the first loop: `len / 16` whole blocks, and the bytes that remain as they are. -/
def cryptRest (rk : List (BitVec 32)) (out len : Nat) (s : Cursor) : CTR × Memory :=
  let l := cryptBlocks rk s.ctr (len / 16) ⟨s.memory, s.input, out + s.totalLen.toNat, s.ctr.w3⟩
  (⟨{ s.ctr with w3 := l.ctr }, out, s.totalLen + BitVec.ofNat 32 len⟩,
    eachByte l.out (fun m i => m (l.input + i)) (len % 16) l.memory)

/-- `crypt` without `ZT_AES_AESNI` and `ZT_AES_NEON`, or on a processor that lacks the instructions. -/
def crypt (rk : List (BitVec 32)) (s : CTR × Memory) (call : Call) : CTR × Memory :=
  let start : Cursor := ⟨s.2, call.input, s.1.len, s.1.ctr⟩
  if s.1.len &&& 15 = 0 then cryptRest rk s.1.out call.len.toNat start
  else
    match fill rk s.1.out call.len.toNat start with
    | (none, filled) => (⟨filled.ctr, s.1.out, filled.totalLen⟩, filled.memory)
    | (some len, filled) => cryptRest rk s.1.out len filled

def finish (rk : List (BitVec 32)) (s : CTR × Memory) : Memory :=
  let rem := s.1.len &&& 15
  let tmp := p_encryptSW rk s.1.ctr
  let j := s.1.len - rem
  eachByte (s.1.out + j.toNat) (fun m i => m (s.1.out + j.toNat + i) ^^^ tmp.byte i) rem.toNat s.2

/-- A whole stream: `init`, the calls of `crypt`, and `finish`. -/
def encrypt (key : BitVec 256) (iv : Block) (output : Nat) (calls : List Call) (m : Memory) : Memory :=
  finish (p_initSW key) (run (crypt (p_initSW key)) (CTR.init iv output, m) calls)

end Counter

section Stream

/-- The counter block with its low word `i` further. -/
def Block.advance (b : Block) (i : Nat) : Block := { b with w3 := b.w3 + BitVec.ofNat 32 i }

/-- Byte `i` of the key stream: blocks of `p_encryptSW`, one for each value of the counter. -/
def keystream (rk : List (BitVec 32)) (iv : Block) (i : Nat) : Byte :=
  (p_encryptSW rk (iv.advance (i / 16))).byte (i % 16)

theorem advance_zero (b : Block) : b.advance 0 = b := by
  simp [Block.advance]

theorem advance_succ (b : Block) (i : Nat) :
    b.advance (i + 1) = { b.advance i with w3 := (b.advance i).w3 + 1 } := by
  simp only [Block.advance, BitVec.ofNat_add, BitVec.add_assoc]
  rfl

theorem keystream_block (rk : List (BitVec 32)) (iv : Block) {n i : Nat} (whole : n % 16 = 0) (inside : i < 16) :
    keystream rk iv (n + i) = (p_encryptSW rk (iv.advance (n / 16))).byte i := by
  have block : (n + i) / 16 = n / 16 := by omega
  have position : (n + i) % 16 = i := by omega
  rw [keystream, block, position]

/-- The bytes of two words of a block that are stored as one. -/
theorem pair_byte (high low : BitVec 32) {i : Nat} (inside : i < 8) :
    ((high.setWidth 64 <<< 32) ||| low.setWidth 64).extractLsb' (56 - 8 * i) 8 =
      (if i < 4 then high else low).extractLsb' (24 - 8 * (i % 4)) 8 := by
  ext k bit
  simp only [BitVec.getElem_extractLsb', BitVec.getLsbD_or, BitVec.getLsbD_shiftLeft, BitVec.getLsbD_setWidth]
  by_cases first : i < 4
  · have position : 56 - 8 * i + k - 32 = 24 - 8 * (i % 4) + k := by omega
    have word : 56 - 8 * i + k < 64 ∧ ¬ 56 - 8 * i + k < 32 ∧ 24 - 8 * (i % 4) + k < 64 := by omega
    rw [if_pos first, position, BitVec.getLsbD_of_ge low _ (by omega)]
    simp [word]
  · have position : 56 - 8 * i + k = 24 - 8 * (i % 4) + k := by omega
    have word : 24 - 8 * (i % 4) + k < 64 ∧ 24 - 8 * (i % 4) + k < 32 := by omega
    rw [if_neg first, position]
    simp [word]

theorem byte_low {b : Block} {i : Nat} (inside : i < 8) :
    b.byte i = (if i < 4 then b.w0 else b.w1).extractLsb' (24 - 8 * (i % 4)) 8 := by
  unfold Block.byte
  by_cases first : i < 4
  · rw [if_pos first, if_pos first]
  · rw [if_neg first, if_neg first, if_pos inside]

theorem byte_high {b : Block} {i : Nat} (inside : i < 8) :
    b.byte (8 + i) = (if i < 4 then b.w2 else b.w3).extractLsb' (24 - 8 * (i % 4)) 8 := by
  have position : (8 + i) % 4 = i % 4 := by omega
  have third : 8 + i < 12 ↔ i < 4 := by omega
  rw [Block.byte, if_neg (by omega), if_neg (by omega), if_congr third rfl rfl, position]

/-- The two words that the loop for aligned data stores, byte by byte. -/
theorem store_block (b : Block) (m : Memory) (source target : Nat) :
    store64 (load64 m (source + 8) ^^^ hton64 ((b.w2.setWidth 64 <<< 32) ||| b.w3.setWidth 64)) (target + 8)
        (store64 (load64 m source ^^^ hton64 ((b.w0.setWidth 64 <<< 32) ||| b.w1.setWidth 64)) target m) =
      written target (fun i => m (source + i) ^^^ b.byte i) 16 m := by
  rw [store64_load64_hton64, store64_load64_hton64, ← written_written target 8 8 (fun i => m (source + i) ^^^ b.byte i)]
  rw [@written_congr target 8 _ (fun i => m (source + i) ^^^ b.byte i)]
  · apply written_congr
    intro i below
    rw [pair_byte _ _ below, byte_high below, Nat.add_assoc]
  · intro i below
    rw [pair_byte _ _ below, byte_low below]

theorem ofNat_and_fifteen (n : Nat) : BitVec.ofNat 32 n &&& 15 = BitVec.ofNat 32 (n % 16) := by
  apply BitVec.eq_of_toNat_eq
  have mask : (15 : BitVec 32).toNat = 2 ^ 4 - 1 := rfl
  rw [BitVec.toNat_and, mask, Nat.and_two_pow_sub_one_eq_mod, BitVec.toNat_ofNat, BitVec.toNat_ofNat]
  omega

theorem toNat_counted {n : Nat} (below : n < 2 ^ 32) : (BitVec.ofNat 32 n).toNat = n := by
  rw [BitVec.toNat_ofNat, Nat.mod_eq_of_lt below]

theorem and_fifteen_eq_zero (n : Nat) : BitVec.ofNat 32 n &&& 15 = 0 ↔ n % 16 = 0 := by
  rw [ofNat_and_fifteen]
  constructor
  · intro zero
    have value := congrArg BitVec.toNat zero
    rw [BitVec.toNat_ofNat] at value
    change n % 16 % 2 ^ 32 = 0 at value
    omega
  · intro zero
    rw [zero]
    rfl

variable (rk : List (BitVec 32)) (iv : Block) (m : Memory) (out : Nat) (input : Nat → Byte)

/-- The buffer after `n` bytes, of which `done` are encrypted. -/
def buffer (done n : Nat) : Memory := streamed m out input (keystream rk iv) done n

/-- From `p` on, memory has `count` bytes of the input, and none of them is overwritten before it is read. -/
def Feeds (n p count : Nat) : Prop :=
  ∀ i < count, m (p + i) = input (n + i) ∧ (p + i < out ∨ out + (n + i) ≤ p + i)

def loopAt (n p : Nat) : Loop := ⟨buffer rk iv m out input n n, p, out + n, (iv.advance (n / 16)).w3⟩

def cursorAt (done n p : Nat) : Cursor :=
  ⟨buffer rk iv m out input done n, p, BitVec.ofNat 32 n, iv.advance (done / 16)⟩

/-- Between two calls, after `n` bytes. -/
def stateAt (n : Nat) : CTR × Memory :=
  (⟨iv.advance (n / 16), out, BitVec.ofNat 32 n⟩, buffer rk iv m out input (16 * (n / 16)) n)

variable {rk iv m out input} {n p count done : Nat}

theorem Feeds.skip (feeds : Feeds m out input n p count) {skipped : Nat} (le : skipped ≤ count) :
    Feeds m out input (n + skipped) (p + skipped) (count - skipped) := by
  intro i below
  have later := feeds (skipped + i) (by omega)
  rw [← Nat.add_assoc, ← Nat.add_assoc] at later
  exact ⟨later.1, by omega⟩

theorem Feeds.take (feeds : Feeds m out input n p count) {fewer : Nat} (le : fewer ≤ count) :
    Feeds m out input n p fewer := fun i below => feeds i (Nat.lt_of_lt_of_le below le)

/-- What is read is the input, wherever the buffer has been written before. -/
theorem Feeds.read (feeds : Feeds m out input n p count) {i : Nat} (below : i < count) {reached : Nat}
    (before : reached ≤ n + i) : buffer rk iv m out input done reached (p + i) = input (n + i) := by
  have here := feeds i below
  rw [buffer, streamed_outside (by omega)]
  exact here.1

/-- The bytes in front of the next block boundary, or of the end, are copied. -/
theorem copy_buffer (feeds : Feeds m out input n p count) (before : done ≤ n) :
    eachByte (out + n) (fun m i => m (p + i)) count (buffer rk iv m out input done n) =
      buffer rk iv m out input done (n + count) := by
  have same : ∀ i < count, written (out + n) (fun i => input (n + i)) i (buffer rk iv m out input done n) (p + i) =
      input (n + i) := by
    intro i below
    have here := feeds i below
    rw [written_outside (by omega)]
    exact feeds.read below (Nat.le_add_right n i)
  rw [@eachByte_eq _ _ _ (fun i => input (n + i)) _ same]
  exact written_streamed before count

/-- The lines that the loops share with the block function compute the block of the key stream. -/
theorem rounds_keystream (whole : n % 16 = 0) {i : Nat} (inside : i < 16) :
    (rounds rk ⟨iv.w0 ^^^ rk.getD 0 0, iv.w1 ^^^ rk.getD 1 0, iv.w2 ^^^ rk.getD 2 0,
      (iv.advance (n / 16)).w3 ^^^ rk.getD 3 0⟩).byte i = keystream rk iv (n + i) :=
  (keystream_block rk iv whole inside).symm

theorem loopAt_next :
    (⟨buffer rk iv m out input (n + 16) (n + 16), p + 16, out + n + 16, (iv.advance (n / 16)).w3 + 1⟩ : Loop) =
      loopAt rk iv m out input (n + 16) (p + 16) := by
  rw [loopAt, Nat.add_div_right n (by decide), advance_succ, Nat.add_assoc]

theorem unalignedBlock_spec (whole : n % 16 = 0) (feeds : Feeds m out input n p 16) :
    unalignedBlock rk (iv.w0 ^^^ rk.getD 0 0) (iv.w1 ^^^ rk.getD 1 0) (iv.w2 ^^^ rk.getD 2 0)
      (loopAt rk iv m out input n p) = loopAt rk iv m out input (n + 16) (p + 16) := by
  rw [← loopAt_next]
  simp only [unalignedBlock, loopAt, Loop.mk.injEq, and_true]
  rw [@eachByte_eq _ _ _ (fun i => input (n + i) ^^^ keystream rk iv (n + i))]
  · exact written_encrypted 16
  · intro i below
    have here := feeds i below
    rw [written_outside (by omega), feeds.read below (Nat.le_add_right n i), rounds_keystream whole below]

theorem alignedBlock_spec (whole : n % 16 = 0) (feeds : Feeds m out input n p 16) :
    alignedBlock rk (iv.w0 ^^^ rk.getD 0 0) (iv.w1 ^^^ rk.getD 1 0) (iv.w2 ^^^ rk.getD 2 0)
      (loopAt rk iv m out input n p) = loopAt rk iv m out input (n + 16) (p + 16) := by
  rw [← loopAt_next]
  simp only [alignedBlock, loopAt, Loop.mk.injEq, and_true]
  rw [store_block, @written_congr _ _ _ (fun i => input (n + i) ^^^ keystream rk iv (n + i))]
  · exact written_encrypted 16
  · intro i below
    rw [feeds.read below (Nat.le_add_right n i), rounds_keystream whole below]

/-- Whole blocks, with one of the two bodies. -/
theorem repeat_spec {block : Loop → Loop} (turn : ∀ n p, n % 16 = 0 → Feeds m out input n p 16 →
      block (loopAt rk iv m out input n p) = loopAt rk iv m out input (n + 16) (p + 16))
    (blocks : Nat) (whole : n % 16 = 0) (feeds : Feeds m out input n p (16 * blocks)) :
    Nat.repeat block blocks (loopAt rk iv m out input n p) =
      loopAt rk iv m out input (n + 16 * blocks) (p + 16 * blocks) := by
  induction blocks with
  | zero => rfl
  | succ blocks ih =>
      have last := feeds.skip (Nat.mul_le_mul_left 16 (Nat.le_succ blocks))
      have one : 16 * (blocks + 1) - 16 * blocks = 16 := by omega
      rw [one] at last
      rw [Nat.repeat, ih (feeds.take (by omega))]
      exact turn _ _ (by omega) last

theorem cryptBlocks_spec (ctr : Block) (same : ctr.w0 = iv.w0 ∧ ctr.w1 = iv.w1 ∧ ctr.w2 = iv.w2) (blocks : Nat)
    (whole : n % 16 = 0) (feeds : Feeds m out input n p (16 * blocks)) :
    cryptBlocks rk ctr blocks (loopAt rk iv m out input n p) =
      loopAt rk iv m out input (n + 16 * blocks) (p + 16 * blocks) := by
  have turn : ∀ n p, n % 16 = 0 → Feeds m out input n p 16 → _ :=
    fun n p whole feeds => @alignedBlock_spec rk iv m out input n p whole feeds
  have other : ∀ n p, n % 16 = 0 → Feeds m out input n p 16 → _ :=
    fun n p whole feeds => @unalignedBlock_spec rk iv m out input n p whole feeds
  unfold cryptBlocks
  rw [same.1, same.2.1, same.2.2]
  split
  · exact repeat_spec turn blocks whole feeds
  · exact repeat_spec other blocks whole feeds

theorem cryptRest_spec {len : Nat} (whole : n % 16 = 0) (room : n + len ≤ 2 ^ 32)
    (feeds : Feeds m out input n p len) :
    cryptRest rk out len (cursorAt rk iv m out input n n p) = stateAt rk iv m out input (n + len) := by
  by_cases empty : len = 0
  · have rounded : 16 * (n / 16) = n := by omega
    rw [empty, Nat.add_zero, stateAt, rounded, cryptRest, cursorAt, BitVec.add_zero]
    rfl
  · have position := @toNat_counted n (by omega)
    have blocks := @cryptBlocks_spec rk iv m out input n p (iv.advance (n / 16)) ⟨rfl, rfl, rfl⟩ (len / 16) whole
      (feeds.take (by omega))
    have rest := feeds.skip (@Nat.mul_div_le len 16)
    have left : len - 16 * (len / 16) = len % 16 := by omega
    have rounded : n + 16 * (len / 16) = 16 * ((n + len) / 16) := by omega
    have counter : (n + 16 * (len / 16)) / 16 = (n + len) / 16 := by omega
    have length : n + 16 * (len / 16) + len % 16 = n + len := by omega
    rw [left] at rest
    simp only [cryptRest, cursorAt, position]
    rw [loopAt] at blocks
    rw [blocks]
    simp only [loopAt, stateAt]
    rw [copy_buffer rest le_rfl, counter, length, ← rounded, ← BitVec.ofNat_add]
    rfl

/-- The bytes behind a block boundary are encrypted with the key stream that belongs to them. -/
theorem encrypt_block (aligned : done % 16 = 0) {count : Nat} (le : count ≤ 16) :
    eachByte (out + done) (fun m i => m (out + done + i) ^^^ (p_encryptSW rk (iv.advance (done / 16))).byte i) count
        (buffer rk iv m out input done (done + count)) =
      buffer rk iv m out input (done + count) (done + count) := by
  rw [@eachByte_congr _ _ _ (fun m i => m (out + done + i) ^^^ keystream rk iv (done + i))]
  · exact eachByte_encrypts count
  · intro m i below
    rw [keystream_block rk iv aligned (Nat.lt_of_lt_of_le below le)]

/-- Where the first loop ends: before the block boundary if the input does, else behind the block. -/
theorem fill_spec {len : Nat} (behind : done < n) (before : n < done + 16) (aligned : done % 16 = 0)
    (room : done + 16 ≤ 2 ^ 32) (feeds : Feeds m out input n p len) :
    fill rk out len (cursorAt rk iv m out input done n p) =
      if n + len < done + 16 then (none, cursorAt rk iv m out input done (n + len) (p + len))
      else (some (n + len - (done + 16)),
        cursorAt rk iv m out input (done + 16) (done + 16) (p + (done + 16 - n))) := by
  induction len generalizing n p with
  | zero =>
      rw [if_pos (Nat.add_zero n ▸ before)]
      rfl
  | succ len ih =>
      have position := @toNat_counted n (by omega)
      have copied : Function.update (buffer rk iv m out input done n) (out + n) (buffer rk iv m out input done n p) =
          buffer rk iv m out input done (n + 1) :=
        copy_buffer (feeds.take (Nat.le_add_left 1 len)) (Nat.le_of_lt behind)
      have next : BitVec.ofNat 32 n + 1 = BitVec.ofNat 32 (n + 1) := (BitVec.ofNat_add ..).symm
      simp only [fill, cursorAt, position, copied, next, and_fifteen_eq_zero]
      by_cases last : n + 1 = done + 16
      · have start : (BitVec.ofNat 32 (done + 16) - 16).toNat = done := by
          calc (BitVec.ofNat 32 (done + 16) - 16).toNat = (BitVec.ofNat 32 done + 16 - 16).toNat := by
                rw [BitVec.ofNat_add]
                rfl
            _ = (BitVec.ofNat 32 done).toNat := by rw [BitVec.add_sub_cancel]
            _ = done := toNat_counted (by omega)
        have one : done + 16 - n = 1 := by omega
        have left : n + (len + 1) - (done + 16) = len := by omega
        rw [last, if_pos (by omega), if_neg (by omega), start, encrypt_block aligned le_rfl,
          Nat.add_div_right done (by decide), advance_succ, one, left]
      · rw [if_neg (by omega)]
        have later := feeds.skip (Nat.le_add_left 1 len)
        rw [Nat.add_sub_cancel] at later
        have rest := ih (Nat.lt_succ_of_lt behind) (by omega) later
        have end_of_input : n + 1 + len = n + (len + 1) := by omega
        have end_of_source : p + 1 + len = p + (len + 1) := by omega
        have behind_block : p + 1 + (done + 16 - (n + 1)) = p + (done + 16 - n) := by omega
        rw [end_of_input, end_of_source, behind_block] at rest
        exact rest

theorem crypt_spec {call : Call} (room : n + call.len.toNat ≤ 2 ^ 32)
    (feeds : Feeds m out input n call.input call.len.toNat) :
    crypt rk (stateAt rk iv m out input n) call = stateAt rk iv m out input (n + call.len.toNat) := by
  have boundary : (stateAt rk iv m out input n).1.len &&& 15 = 0 ↔ n % 16 = 0 := and_fifteen_eq_zero n
  by_cases whole : n % 16 = 0
  · have rounded : 16 * (n / 16) = n := by omega
    simp only [crypt]
    rw [if_pos (boundary.mpr whole)]
    simp only [stateAt, rounded]
    exact cryptRest_spec whole room feeds
  · have start : (⟨buffer rk iv m out input (16 * (n / 16)) n, call.input, BitVec.ofNat 32 n, iv.advance (n / 16)⟩ :
        Cursor) = cursorAt rk iv m out input (16 * (n / 16)) n call.input := by
      rw [cursorAt, Nat.mul_div_cancel_left (n / 16) (by decide)]
    have filled := @fill_spec rk iv m out input n call.input (16 * (n / 16)) call.len.toNat (by omega) (by omega)
      (by omega) (by omega) feeds
    simp only [crypt]
    rw [if_neg (mt boundary.mp whole)]
    simp only [stateAt, start, filled]
    by_cases short : n + call.len.toNat < 16 * (n / 16) + 16
    · have same : (n + call.len.toNat) / 16 = n / 16 := by omega
      rw [if_pos short, same, cursorAt, Nat.mul_div_cancel_left (n / 16) (by decide)]
    · have rest := feeds.skip (show 16 * (n / 16) + 16 - n ≤ call.len.toNat by omega)
      have reached : n + (16 * (n / 16) + 16 - n) = 16 * (n / 16) + 16 := by omega
      have left : call.len.toNat - (16 * (n / 16) + 16 - n) = n + call.len.toNat - (16 * (n / 16) + 16) := by omega
      have length : 16 * (n / 16) + 16 + (n + call.len.toNat - (16 * (n / 16) + 16)) = n + call.len.toNat := by omega
      rw [reached, left] at rest
      have ended := @cryptRest_spec rk iv m out input _ _ _ (by omega) (by omega) rest
      rw [length] at ended
      rw [if_neg short]
      exact ended

theorem finish_spec (room : n ≤ 2 ^ 32) :
    finish rk (stateAt rk iv m out input n) = written out (fun i => input i ^^^ keystream rk iv i) n m := by
  have rem : (BitVec.ofNat 32 n &&& 15).toNat = n % 16 := by
    rw [ofNat_and_fifteen, toNat_counted (by omega)]
  have finished : 16 * (n / 16) + n % 16 = n := by omega
  by_cases whole : n % 16 = 0
  · have rounded : 16 * (n / 16) = n := by omega
    simp only [finish, stateAt, rem, whole, rounded]
    exact streamed_all
  · have start : (BitVec.ofNat 32 n - (BitVec.ofNat 32 n &&& 15)).toNat = 16 * (n / 16) := by
      have position := @toNat_counted n (by omega)
      have below : BitVec.ofNat 32 n &&& 15 ≤ BitVec.ofNat 32 n := by
        rw [BitVec.le_def, rem, position]
        exact Nat.mod_le n 16
      rw [BitVec.toNat_sub_of_le below, position, rem]
      omega
    have last := @encrypt_block rk iv m out input (16 * (n / 16)) (by omega) (n % 16) (by omega)
    rw [Nat.mul_div_cancel_left (n / 16) (by decide), finished] at last
    simp only [finish, stateAt, rem, start]
    rw [last]
    exact streamed_all

end Stream

section Calls

/-- The length of the whole input. -/
def total (calls : List Call) : Nat := (calls.map fun call => call.len.toNat).sum

/-- Byte `i` of the input, as it is in memory before the first call. -/
def inputAt (m : Memory) : List Call → Nat → Byte
  | [], _ => 0
  | call :: calls, i => if i < call.len.toNat then m (call.input + i) else inputAt m calls (i - call.len.toNat)

/-- After `n` bytes each call has its input where its output goes, or no byte of it in the output buffer. -/
def Placed (out size : Nat) : Nat → List Call → Prop
  | _, [] => True
  | n, call :: calls =>
      (call.input = out + n ∨ ∀ i < call.len.toNat, call.input + i < out ∨ out + size ≤ call.input + i) ∧
        Placed out size (n + call.len.toNat) calls

@[simp] theorem total_cons (call : Call) (calls : List Call) :
    total (call :: calls) = call.len.toNat + total calls := by
  simp [total]

variable {rk : List (BitVec 32)} {iv : Block} {m : Memory} {out : Nat} {input : Nat → Byte}

/-- Any calls take the stream on by their bytes. -/
theorem run_crypt {n size : Nat} {calls : List Call} (room : n + total calls ≤ 2 ^ 32) (fits : n + total calls ≤ size)
    (placed : Placed out size n calls) (same : ∀ i < total calls, inputAt m calls i = input (n + i)) :
    run (crypt rk) (stateAt rk iv m out input n) calls = stateAt rk iv m out input (n + total calls) := by
  induction calls generalizing n with
  | nil => rfl
  | cons call calls ih =>
      rw [total_cons] at room fits same ⊢
      have feeds : Feeds m out input n call.input call.len.toNat := by
        intro i below
        have here := same i (by omega)
        rw [inputAt, if_pos below] at here
        rcases placed.1 with place | apart
        · exact ⟨here, by omega⟩
        · have place := apart i below
          exact ⟨here, by omega⟩
      have later : ∀ i < total calls, inputAt m calls i = input (n + call.len.toNat + i) := by
        intro i below
        have here := same (call.len.toNat + i) (by omega)
        rw [inputAt, if_neg (by omega), Nat.add_sub_cancel_left, ← Nat.add_assoc] at here
        exact here
      rw [run_cons, crypt_spec (by omega) feeds, ih (by omega) (by omega) placed.2 later, Nat.add_assoc]

theorem init_stateAt : (CTR.init iv out, m) = stateAt rk iv m out input 0 := by
  rw [stateAt, advance_zero, buffer, streamed_start]
  rfl

/-- What a stream writes, up to 4 GiB: the input with the key stream. -/
theorem finish_run {calls : List Call} (counted : total calls ≤ 2 ^ 32) (placed : Placed out (total calls) 0 calls) :
    finish rk (run (crypt rk) (CTR.init iv out, m) calls) =
      written out (fun i => inputAt m calls i ^^^ keystream rk iv i) (total calls) m := by
  have start : (CTR.init iv out, m) = stateAt rk iv m out (inputAt m calls) 0 := init_stateAt
  have ran := @run_crypt rk iv m out (inputAt m calls) 0 (total calls) calls (by omega) (by omega) placed
    (fun i below => by rw [Nat.zero_add])
  rw [Nat.zero_add] at ran
  rw [start, ran]
  exact finish_spec counted

/-- Up to 4 GiB, the calls and `finish` together write the input with the key stream, and nothing else. -/
theorem encrypt_stream (key : BitVec 256) (iv : Block) (out : Nat) (calls : List Call) (m : Memory)
    (counted : total calls ≤ 2 ^ 32) (placed : Placed out (total calls) 0 calls) :
    encrypt key iv out calls m =
      written out (fun i => inputAt m calls i ^^^ keystream (p_initSW key) iv i) (total calls) m := by
  rw [encrypt]
  exact finish_run counted placed

/-- Twenty bytes from elsewhere and thirteen in place, to an address that is not aligned. -/
def twoCalls : List Call := [⟨0x2000, 20⟩, ⟨0x1003 + 20, 13⟩]

theorem two_calls_encrypted :
    total twoCalls ≤ 2 ^ 32 ∧ Placed 0x1003 (total twoCalls) 0 twoCalls ∧
      encrypt 0x2a ⟨1, 2, 3, 0xfffffffe⟩ 0x1003 twoCalls (fun x => BitVec.ofNat 8 x) =
        written 0x1003 (fun i => inputAt (fun x => BitVec.ofNat 8 x) twoCalls i ^^^
          keystream (p_initSW 0x2a) ⟨1, 2, 3, 0xfffffffe⟩ i) (total twoCalls) fun x => BitVec.ofNat 8 x := by
  have counted : total twoCalls ≤ 2 ^ 32 := by decide
  have placed : Placed 0x1003 (total twoCalls) 0 twoCalls := by
    have apart (i : Nat) : 0x1003 + total twoCalls ≤ 0x2000 + i :=
      Nat.le_trans (by decide) (Nat.le_add_right 0x2000 i)
    exact ⟨Or.inr fun i _ => Or.inr (apart i), Or.inl rfl, trivial⟩
  exact ⟨counted, placed, encrypt_stream _ _ _ _ _ counted placed⟩

/-- After exactly 4 GiB the length is zero again, and what follows is written over the start of the output. -/
theorem encrypt_wrapped {key : BitVec 256} {calls : List Call} {call : Call} (full : total calls = 2 ^ 32)
    (placed : Placed out (2 ^ 32) 0 calls) (source : out ≤ call.input) {x : Nat} (beyond : out + 2 ^ 32 ≤ x) :
    encrypt key iv out (calls ++ [call]) m x = m x := by
  have short : call.len.toNat < 2 ^ 32 := call.len.isLt
  have ran := @run_crypt (p_initSW key) iv m out (inputAt m calls) 0 (2 ^ 32) calls (by omega) (by omega) placed
    (fun i below => by rw [Nat.zero_add])
  rw [full, Nat.zero_add, ← init_stateAt] at ran
  have wrapped : stateAt (p_initSW key) iv m out (inputAt m calls) (2 ^ 32) =
      (CTR.init (iv.advance (2 ^ 28)) out, buffer (p_initSW key) iv m out (inputAt m calls) (2 ^ 32) (2 ^ 32)) := rfl
  generalize memory : buffer (p_initSW key) iv m out (inputAt m calls) (2 ^ 32) (2 ^ 32) = reached at wrapped
  have kept : reached x = m x := by
    rw [← memory]
    exact streamed_outside (Or.inr beyond)
  have feeds : Feeds reached out (fun i => reached (call.input + i)) 0 call.input call.len.toNat := by
    intro i below
    exact ⟨by rw [Nat.zero_add], by omega⟩
  have again := @crypt_spec (p_initSW key) (iv.advance (2 ^ 28)) reached out _ 0 call (by omega) feeds
  calc encrypt key iv out (calls ++ [call]) m x
      = finish (p_initSW key) (crypt (p_initSW key) (CTR.init (iv.advance (2 ^ 28)) out, reached) call) x := by
        rw [encrypt, run_append, ran, wrapped]
        rfl
    _ = reached x := by
        rw [@init_stateAt (p_initSW key) _ _ _ (fun i => reached (call.input + i)), again, finish_spec (by omega),
          written_outside (by omega)]
    _ = m x := kept

/-- A buffer of zeros, encrypted in place: twice 2 GiB and one byte more. -/
def longCalls : List Call := [⟨0, 0x80000000⟩, ⟨0x80000000, 0x80000000⟩, ⟨0x100000000, 1⟩]

theorem long_stream_wraps :
    ¬ ∀ (key : BitVec 256) (iv : Block) (out : Nat) (calls : List Call) (m : Memory),
      iv.w3.toNat + (total calls + 15) / 16 < 2 ^ 32 → Placed out (total calls) 0 calls →
      encrypt key iv out calls m =
        written out (fun i => inputAt m calls i ^^^ keystream (p_initSW key) iv i) (total calls) m := by
  intro all
  have placed : Placed 0 (total longCalls) 0 longCalls := ⟨Or.inl rfl, Or.inl rfl, Or.inl rfl, trivial⟩
  have stream := congrFun (all 0 ⟨0, 0, 0, 0⟩ 0 longCalls (fun _ => 0) (by decide) placed) (2 ^ 32)
  have zeros : ∀ calls i, inputAt (fun _ => 0) calls i = 0 := by
    intro calls
    induction calls with
    | nil => exact fun _ => rfl
    | cons call calls ih =>
        intro i
        rw [inputAt]
        split
        · rfl
        · exact ih _
  have kept : encrypt 0 ⟨0, 0, 0, 0⟩ 0 longCalls (fun _ => 0) (2 ^ 32) = 0 :=
    @encrypt_wrapped ⟨0, 0, 0, 0⟩ (fun _ => 0) 0 0 [⟨0, 0x80000000⟩, ⟨0x80000000, 0x80000000⟩] ⟨0x100000000, 1⟩
      (by decide) ⟨Or.inl rfl, Or.inl rfl, trivial⟩ (by decide) (2 ^ 32) (by decide)
  have stretched : keystream (p_initSW 0) ⟨0, 0, 0, 0⟩ (2 ^ 32) ≠ 0 := by decide +kernel
  rw [kept, written, if_pos (by decide), zeros] at stream
  exact stretched (stream.trans BitVec.zero_xor).symm

end Calls

end ZeroTierNode.AesCtr
