import Mathlib.Data.Finite.Prod
import Mathlib.Data.List.GetD
import ZeroTierNode.AesCtr
import ZeroTierNode.Library.BlockCiphers

/-!
The block function of AES without processor support and its inverse: the tables of the two
directions, the second key schedule, and the rounds of `p_decryptSW`, which undo those of `p_encryptSW`.
-/

namespace ZeroTierNode.AesBlock
open AesCtr Library.BlockCiphers Library.Bytes

section Cipher

def Te4 : List (BitVec 32) :=
  [0x63636363, 0x7c7c7c7c, 0x77777777, 0x7b7b7b7b, 0xf2f2f2f2, 0x6b6b6b6b, 0x6f6f6f6f, 0xc5c5c5c5, 0x30303030,
   0x01010101, 0x67676767, 0x2b2b2b2b, 0xfefefefe, 0xd7d7d7d7, 0xabababab, 0x76767676, 0xcacacaca, 0x82828282,
   0xc9c9c9c9, 0x7d7d7d7d, 0xfafafafa, 0x59595959, 0x47474747, 0xf0f0f0f0, 0xadadadad, 0xd4d4d4d4, 0xa2a2a2a2,
   0xafafafaf, 0x9c9c9c9c, 0xa4a4a4a4, 0x72727272, 0xc0c0c0c0, 0xb7b7b7b7, 0xfdfdfdfd, 0x93939393, 0x26262626,
   0x36363636, 0x3f3f3f3f, 0xf7f7f7f7, 0xcccccccc, 0x34343434, 0xa5a5a5a5, 0xe5e5e5e5, 0xf1f1f1f1, 0x71717171,
   0xd8d8d8d8, 0x31313131, 0x15151515, 0x04040404, 0xc7c7c7c7, 0x23232323, 0xc3c3c3c3, 0x18181818, 0x96969696,
   0x05050505, 0x9a9a9a9a, 0x07070707, 0x12121212, 0x80808080, 0xe2e2e2e2, 0xebebebeb, 0x27272727, 0xb2b2b2b2,
   0x75757575, 0x09090909, 0x83838383, 0x2c2c2c2c, 0x1a1a1a1a, 0x1b1b1b1b, 0x6e6e6e6e, 0x5a5a5a5a, 0xa0a0a0a0,
   0x52525252, 0x3b3b3b3b, 0xd6d6d6d6, 0xb3b3b3b3, 0x29292929, 0xe3e3e3e3, 0x2f2f2f2f, 0x84848484, 0x53535353,
   0xd1d1d1d1, 0x00000000, 0xedededed, 0x20202020, 0xfcfcfcfc, 0xb1b1b1b1, 0x5b5b5b5b, 0x6a6a6a6a, 0xcbcbcbcb,
   0xbebebebe, 0x39393939, 0x4a4a4a4a, 0x4c4c4c4c, 0x58585858, 0xcfcfcfcf, 0xd0d0d0d0, 0xefefefef, 0xaaaaaaaa,
   0xfbfbfbfb, 0x43434343, 0x4d4d4d4d, 0x33333333, 0x85858585, 0x45454545, 0xf9f9f9f9, 0x02020202, 0x7f7f7f7f,
   0x50505050, 0x3c3c3c3c, 0x9f9f9f9f, 0xa8a8a8a8, 0x51515151, 0xa3a3a3a3, 0x40404040, 0x8f8f8f8f, 0x92929292,
   0x9d9d9d9d, 0x38383838, 0xf5f5f5f5, 0xbcbcbcbc, 0xb6b6b6b6, 0xdadadada, 0x21212121, 0x10101010, 0xffffffff,
   0xf3f3f3f3, 0xd2d2d2d2, 0xcdcdcdcd, 0x0c0c0c0c, 0x13131313, 0xecececec, 0x5f5f5f5f, 0x97979797, 0x44444444,
   0x17171717, 0xc4c4c4c4, 0xa7a7a7a7, 0x7e7e7e7e, 0x3d3d3d3d, 0x64646464, 0x5d5d5d5d, 0x19191919, 0x73737373,
   0x60606060, 0x81818181, 0x4f4f4f4f, 0xdcdcdcdc, 0x22222222, 0x2a2a2a2a, 0x90909090, 0x88888888, 0x46464646,
   0xeeeeeeee, 0xb8b8b8b8, 0x14141414, 0xdededede, 0x5e5e5e5e, 0x0b0b0b0b, 0xdbdbdbdb, 0xe0e0e0e0, 0x32323232,
   0x3a3a3a3a, 0x0a0a0a0a, 0x49494949, 0x06060606, 0x24242424, 0x5c5c5c5c, 0xc2c2c2c2, 0xd3d3d3d3, 0xacacacac,
   0x62626262, 0x91919191, 0x95959595, 0xe4e4e4e4, 0x79797979, 0xe7e7e7e7, 0xc8c8c8c8, 0x37373737, 0x6d6d6d6d,
   0x8d8d8d8d, 0xd5d5d5d5, 0x4e4e4e4e, 0xa9a9a9a9, 0x6c6c6c6c, 0x56565656, 0xf4f4f4f4, 0xeaeaeaea, 0x65656565,
   0x7a7a7a7a, 0xaeaeaeae, 0x08080808, 0xbabababa, 0x78787878, 0x25252525, 0x2e2e2e2e, 0x1c1c1c1c, 0xa6a6a6a6,
   0xb4b4b4b4, 0xc6c6c6c6, 0xe8e8e8e8, 0xdddddddd, 0x74747474, 0x1f1f1f1f, 0x4b4b4b4b, 0xbdbdbdbd, 0x8b8b8b8b,
   0x8a8a8a8a, 0x70707070, 0x3e3e3e3e, 0xb5b5b5b5, 0x66666666, 0x48484848, 0x03030303, 0xf6f6f6f6, 0x0e0e0e0e,
   0x61616161, 0x35353535, 0x57575757, 0xb9b9b9b9, 0x86868686, 0xc1c1c1c1, 0x1d1d1d1d, 0x9e9e9e9e, 0xe1e1e1e1,
   0xf8f8f8f8, 0x98989898, 0x11111111, 0x69696969, 0xd9d9d9d9, 0x8e8e8e8e, 0x94949494, 0x9b9b9b9b, 0x1e1e1e1e,
   0x87878787, 0xe9e9e9e9, 0xcececece, 0x55555555, 0x28282828, 0xdfdfdfdf, 0x8c8c8c8c, 0xa1a1a1a1, 0x89898989,
   0x0d0d0d0d, 0xbfbfbfbf, 0xe6e6e6e6, 0x42424242, 0x68686868, 0x41414141, 0x99999999, 0x2d2d2d2d, 0x0f0f0f0f,
   0xb0b0b0b0, 0x54545454, 0xbbbbbbbb, 0x16161616]

def Td0 : List (BitVec 32) :=
  [0x51f4a750, 0x7e416553, 0x1a17a4c3, 0x3a275e96, 0x3bab6bcb, 0x1f9d45f1, 0xacfa58ab, 0x4be30393, 0x2030fa55,
   0xad766df6, 0x88cc7691, 0xf5024c25, 0x4fe5d7fc, 0xc52acbd7, 0x26354480, 0xb562a38f, 0xdeb15a49, 0x25ba1b67,
   0x45ea0e98, 0x5dfec0e1, 0xc32f7502, 0x814cf012, 0x8d4697a3, 0x6bd3f9c6, 0x038f5fe7, 0x15929c95, 0xbf6d7aeb,
   0x955259da, 0xd4be832d, 0x587421d3, 0x49e06929, 0x8ec9c844, 0x75c2896a, 0xf48e7978, 0x99583e6b, 0x27b971dd,
   0xbee14fb6, 0xf088ad17, 0xc920ac66, 0x7dce3ab4, 0x63df4a18, 0xe51a3182, 0x97513360, 0x62537f45, 0xb16477e0,
   0xbb6bae84, 0xfe81a01c, 0xf9082b94, 0x70486858, 0x8f45fd19, 0x94de6c87, 0x527bf8b7, 0xab73d323, 0x724b02e2,
   0xe31f8f57, 0x6655ab2a, 0xb2eb2807, 0x2fb5c203, 0x86c57b9a, 0xd33708a5, 0x302887f2, 0x23bfa5b2, 0x02036aba,
   0xed16825c, 0x8acf1c2b, 0xa779b492, 0xf307f2f0, 0x4e69e2a1, 0x65daf4cd, 0x0605bed5, 0xd134621f, 0xc4a6fe8a,
   0x342e539d, 0xa2f355a0, 0x058ae132, 0xa4f6eb75, 0x0b83ec39, 0x4060efaa, 0x5e719f06, 0xbd6e1051, 0x3e218af9,
   0x96dd063d, 0xdd3e05ae, 0x4de6bd46, 0x91548db5, 0x71c45d05, 0x0406d46f, 0x605015ff, 0x1998fb24, 0xd6bde997,
   0x894043cc, 0x67d99e77, 0xb0e842bd, 0x07898b88, 0xe7195b38, 0x79c8eedb, 0xa17c0a47, 0x7c420fe9, 0xf8841ec9,
   0x00000000, 0x09808683, 0x322bed48, 0x1e1170ac, 0x6c5a724e, 0xfd0efffb, 0x0f853856, 0x3daed51e, 0x362d3927,
   0x0a0fd964, 0x685ca621, 0x9b5b54d1, 0x24362e3a, 0x0c0a67b1, 0x9357e70f, 0xb4ee96d2, 0x1b9b919e, 0x80c0c54f,
   0x61dc20a2, 0x5a774b69, 0x1c121a16, 0xe293ba0a, 0xc0a02ae5, 0x3c22e043, 0x121b171d, 0x0e090d0b, 0xf28bc7ad,
   0x2db6a8b9, 0x141ea9c8, 0x57f11985, 0xaf75074c, 0xee99ddbb, 0xa37f60fd, 0xf701269f, 0x5c72f5bc, 0x44663bc5,
   0x5bfb7e34, 0x8b432976, 0xcb23c6dc, 0xb6edfc68, 0xb8e4f163, 0xd731dcca, 0x42638510, 0x13972240, 0x84c61120,
   0x854a247d, 0xd2bb3df8, 0xaef93211, 0xc729a16d, 0x1d9e2f4b, 0xdcb230f3, 0x0d8652ec, 0x77c1e3d0, 0x2bb3166c,
   0xa970b999, 0x119448fa, 0x47e96422, 0xa8fc8cc4, 0xa0f03f1a, 0x567d2cd8, 0x223390ef, 0x87494ec7, 0xd938d1c1,
   0x8ccaa2fe, 0x98d40b36, 0xa6f581cf, 0xa57ade28, 0xdab78e26, 0x3fadbfa4, 0x2c3a9de4, 0x5078920d, 0x6a5fcc9b,
   0x547e4662, 0xf68d13c2, 0x90d8b8e8, 0x2e39f75e, 0x82c3aff5, 0x9f5d80be, 0x69d0937c, 0x6fd52da9, 0xcf2512b3,
   0xc8ac993b, 0x10187da7, 0xe89c636e, 0xdb3bbb7b, 0xcd267809, 0x6e5918f4, 0xec9ab701, 0x834f9aa8, 0xe6956e65,
   0xaaffe67e, 0x21bccf08, 0xef15e8e6, 0xbae79bd9, 0x4a6f36ce, 0xea9f09d4, 0x29b07cd6, 0x31a4b2af, 0x2a3f2331,
   0xc6a59430, 0x35a266c0, 0x744ebc37, 0xfc82caa6, 0xe090d0b0, 0x33a7d815, 0xf104984a, 0x41ecdaf7, 0x7fcd500e,
   0x1791f62f, 0x764dd68d, 0x43efb04d, 0xccaa4d54, 0xe49604df, 0x9ed1b5e3, 0x4c6a881b, 0xc12c1fb8, 0x4665517f,
   0x9d5eea04, 0x018c355d, 0xfa877473, 0xfb0b412e, 0xb3671d5a, 0x92dbd252, 0xe9105633, 0x6dd64713, 0x9ad7618c,
   0x37a10c7a, 0x59f8148e, 0xeb133c89, 0xcea927ee, 0xb761c935, 0xe11ce5ed, 0x7a47b13c, 0x9cd2df59, 0x55f2733f,
   0x1814ce79, 0x73c737bf, 0x53f7cdea, 0x5ffdaa5b, 0xdf3d6f14, 0x7844db86, 0xcaaff381, 0xb968c43e, 0x3824342c,
   0xc2a3405f, 0x161dc372, 0xbce2250c, 0x283c498b, 0xff0d9541, 0x39a80171, 0x080cb3de, 0xd8b4e49c, 0x6456c190,
   0x7bcb8461, 0xd532b670, 0x486c5c74, 0xd0b85742]

def Td4 : List Byte :=
  [0x52, 0x09, 0x6a, 0xd5, 0x30, 0x36, 0xa5, 0x38, 0xbf, 0x40, 0xa3, 0x9e, 0x81, 0xf3, 0xd7, 0xfb, 0x7c, 0xe3, 0x39,
   0x82, 0x9b, 0x2f, 0xff, 0x87, 0x34, 0x8e, 0x43, 0x44, 0xc4, 0xde, 0xe9, 0xcb, 0x54, 0x7b, 0x94, 0x32, 0xa6, 0xc2,
   0x23, 0x3d, 0xee, 0x4c, 0x95, 0x0b, 0x42, 0xfa, 0xc3, 0x4e, 0x08, 0x2e, 0xa1, 0x66, 0x28, 0xd9, 0x24, 0xb2, 0x76,
   0x5b, 0xa2, 0x49, 0x6d, 0x8b, 0xd1, 0x25, 0x72, 0xf8, 0xf6, 0x64, 0x86, 0x68, 0x98, 0x16, 0xd4, 0xa4, 0x5c, 0xcc,
   0x5d, 0x65, 0xb6, 0x92, 0x6c, 0x70, 0x48, 0x50, 0xfd, 0xed, 0xb9, 0xda, 0x5e, 0x15, 0x46, 0x57, 0xa7, 0x8d, 0x9d,
   0x84, 0x90, 0xd8, 0xab, 0x00, 0x8c, 0xbc, 0xd3, 0x0a, 0xf7, 0xe4, 0x58, 0x05, 0xb8, 0xb3, 0x45, 0x06, 0xd0, 0x2c,
   0x1e, 0x8f, 0xca, 0x3f, 0x0f, 0x02, 0xc1, 0xaf, 0xbd, 0x03, 0x01, 0x13, 0x8a, 0x6b, 0x3a, 0x91, 0x11, 0x41, 0x4f,
   0x67, 0xdc, 0xea, 0x97, 0xf2, 0xcf, 0xce, 0xf0, 0xb4, 0xe6, 0x73, 0x96, 0xac, 0x74, 0x22, 0xe7, 0xad, 0x35, 0x85,
   0xe2, 0xf9, 0x37, 0xe8, 0x1c, 0x75, 0xdf, 0x6e, 0x47, 0xf1, 0x1a, 0x71, 0x1d, 0x29, 0xc5, 0x89, 0x6f, 0xb7, 0x62,
   0x0e, 0xaa, 0x18, 0xbe, 0x1b, 0xfc, 0x56, 0x3e, 0x4b, 0xc6, 0xd2, 0x79, 0x20, 0x9a, 0xdb, 0xc0, 0xfe, 0x78, 0xcd,
   0x5a, 0xf4, 0x1f, 0xdd, 0xa8, 0x33, 0x88, 0x07, 0xc7, 0x31, 0xb1, 0x12, 0x10, 0x59, 0x27, 0x80, 0xec, 0x5f, 0x60,
   0x51, 0x7f, 0xa9, 0x19, 0xb5, 0x4a, 0x0d, 0x2d, 0xe5, 0x7a, 0x9f, 0x93, 0xc9, 0x9c, 0xef, 0xa0, 0xe0, 0x3b, 0x4d,
   0xae, 0x2a, 0xf5, 0xb0, 0xc8, 0xeb, 0xbb, 0x3c, 0x83, 0x53, 0x99, 0x61, 0x17, 0x2b, 0x04, 0x7e, 0xba, 0x77, 0xd6,
   0x26, 0xe1, 0x69, 0x14, 0x63, 0x55, 0x21, 0x0c, 0x7d]

def te4 (x : BitVec 32) : BitVec 32 := Te4.getD x.toNat 0
def td0 (x : BitVec 32) : BitVec 32 := Td0.getD x.toNat 0
def td4 (x : BitVec 32) : BitVec 32 := (Td4.getD x.toNat 0).setWidth 32

def Td1_r (x : BitVec 32) : BitVec 32 := (td0 x).rotateRight 8
def Td2_r (x : BitVec 32) : BitVec 32 := (td0 x).rotateRight 16
def Td3_r (x : BitVec 32) : BitVec 32 := (td0 x).rotateRight 24

/-- The exchange of `rk[i]` and `rk[j]`. -/
def swapKey (i j : Nat) (rk : List (BitVec 32)) : List (BitVec 32) :=
  let temp := rk.getD i 0
  (rk.set i (rk.getD j 0)).set j temp

/-- What the last loop of `p_initSW` makes of a word. -/
def mixedKey (rk : BitVec 32) : BitVec 32 :=
  td0 (te4 (rk >>> 24) &&& 0xff) ^^^ Td1_r (te4 ((rk >>> 16) &&& 0xff) &&& 0xff) ^^^
    Td2_r (te4 ((rk >>> 8) &&& 0xff) &&& 0xff) ^^^ Td3_r (te4 (rk &&& 0xff) &&& 0xff)

def mixKey (i : Nat) (rk : List (BitVec 32)) : List (BitVec 32) := rk.set i (mixedKey (rk.getD i 0))

/-- The four words at `i`, one after the other. -/
def eachWord (f : Nat → List (BitVec 32) → List (BitVec 32)) (rk : List (BitVec 32)) : List (BitVec 32) :=
  (List.range 4).foldl (fun rk c => f c rk) rk

/-- The loop that exchanges the words at `i` with those at `j`, from 0 and 56 on, for some turns. -/
def swapKeys (turns : Nat) (rk : List (BitVec 32)) : List (BitVec 32) :=
  (List.range turns).foldl (fun rk t => eachWord (fun c => swapKey (4 * t + c) (56 - 4 * t + c)) rk) rk

/-- The last loop of `p_initSW`, from the words at 4 on. -/
def mixKeys (turns : Nat) (rk : List (BitVec 32)) : List (BitVec 32) :=
  (List.range turns).foldl (fun rk t => eachWord (fun c => mixKey (4 * (t + 1) + c)) rk) rk

/-- The part of `p_initSW` that fills `p_k.sw.dk`; its first loop ends at `i = 28` and its second at `i = 14`. -/
def decryptKeys (ek : List (BitVec 32)) : List (BitVec 32) := mixKeys 13 (swapKeys 7 ek)

/-- An assignment to one of the words in all but the last round of `p_decryptSW`. -/
def inverseWord (a b c d key : BitVec 32) : BitVec 32 :=
  td0 (a >>> 24) ^^^ Td1_r ((b >>> 16) &&& 0xff) ^^^ Td2_r ((c >>> 8) &&& 0xff) ^^^ Td3_r (d &&& 0xff) ^^^ key

/-- An assignment in its last round. -/
def inverseLastWord (a b c d key : BitVec 32) : BitVec 32 :=
  (td4 (a >>> 24) <<< 24) ^^^ (td4 ((b >>> 16) &&& 0xff) <<< 16) ^^^ (td4 ((c >>> 8) &&& 0xff) <<< 8) ^^^
    td4 (d &&& 0xff) ^^^ key

/-- The four assignments of a round, which take the words in the other order than `p_encryptSW`. -/
def inverseRoundWith (word : BitVec 32 → BitVec 32 → BitVec 32 → BitVec 32 → BitVec 32 → BitVec 32)
    (rk : List (BitVec 32)) (k : Nat) (s : Block) : Block :=
  ⟨word s.w0 s.w3 s.w2 s.w1 (rk.getD k 0), word s.w1 s.w0 s.w3 s.w2 (rk.getD (k + 1) 0),
    word s.w2 s.w1 s.w0 s.w3 (rk.getD (k + 2) 0), word s.w3 s.w2 s.w1 s.w0 (rk.getD (k + 3) 0)⟩

def p_decryptSW (rk : List (BitVec 32)) (input : Block) : Block :=
  inverseRoundWith inverseLastWord rk 56
    ((List.range 13).foldl (fun s i => inverseRoundWith inverseWord rk (4 * (i + 1)) s)
      ⟨input.w0 ^^^ rk.getD 0 0, input.w1 ^^^ rk.getD 1 0, input.w2 ^^^ rk.getD 2 0, input.w3 ^^^ rk.getD 3 0⟩)

end Cipher

section Columns

/-- Every byte of the column doubled in the field of AES. -/
def doubled (w : BitVec 32) : BitVec 32 :=
  let carry := (w >>> 7) &&& 0x01010101
  ((w &&& 0x7f7f7f7f) <<< 1) ^^^ (carry ^^^ (carry <<< 1) ^^^ (carry <<< 3) ^^^ (carry <<< 4))

/-- The mixing of a column; its fourth power is the identity. -/
def mixWord (w : BitVec 32) : BitVec 32 :=
  doubled w ^^^ (w ^^^ doubled w).rotateRight 24 ^^^ w.rotateRight 16 ^^^ w.rotateRight 8

def unmixWord (w : BitVec 32) : BitVec 32 := mixWord (mixWord (mixWord w))

theorem doubled_additive : Additive doubled := by
  have carry : Additive fun w : BitVec 32 => (w >>> 7) &&& 0x01010101 :=
    (additive_and 0x01010101).comp (additive_shiftRight 7)
  have kept : Additive fun w : BitVec 32 => (w &&& 0x7f7f7f7f) <<< 1 :=
    (additive_shiftLeft 1).comp (additive_and 0x7f7f7f7f)
  exact kept.xor (((carry.xor ((additive_shiftLeft 1).comp carry)).xor ((additive_shiftLeft 3).comp carry)).xor
    ((additive_shiftLeft 4).comp carry))

theorem mixWord_additive : Additive mixWord := by
  have sum : Additive fun w : BitVec 32 => (w ^^^ doubled w).rotateRight 24 :=
    (additive_rotateRight 24).comp (additive_id.xor doubled_additive)
  exact ((doubled_additive.xor sum).xor (additive_rotateRight 16)).xor (additive_rotateRight 8)

theorem unmixWord_additive : Additive unmixWord := mixWord_additive.comp (mixWord_additive.comp mixWord_additive)

/-- The mixing at the single bits of a column, evaluated. -/
theorem mixWord_bits :
    (∀ i < 32, unmixWord (mixWord (BitVec.twoPow 32 i)) = BitVec.twoPow 32 i) ∧
      ∀ r ∈ [8, 16, 24], ∀ i < 32,
        mixWord ((BitVec.twoPow 32 i).rotateRight r) = (mixWord (BitVec.twoPow 32 i)).rotateRight r := by
  decide

theorem unmixWord_mixWord (w : BitVec 32) : unmixWord (mixWord w) = w :=
  (unmixWord_additive.comp mixWord_additive).ext additive_id mixWord_bits.1 w

/-- The mixing treats the four places of a column alike. -/
theorem mixWord_rotateRight {r : Nat} (places : r ∈ [8, 16, 24]) (w : BitVec 32) :
    mixWord (w.rotateRight r) = (mixWord w).rotateRight r :=
  (mixWord_additive.comp (additive_rotateRight r)).ext ((additive_rotateRight r).comp mixWord_additive)
    (mixWord_bits.2 r places) w

theorem unmixWord_rotateRight {r : Nat} (places : r ∈ [8, 16, 24]) (w : BitVec 32) :
    unmixWord (w.rotateRight r) = (unmixWord w).rotateRight r := by
  simp only [unmixWord, mixWord_rotateRight places]

/-- A byte at its place in a column. -/
def place (i : Nat) (x : Byte) : BitVec 32 := x.setWidth 32 <<< (8 * i)

def byteAt (i : Nat) (w : BitVec 32) : Byte := w.extractLsb' (8 * i) 8

/-- A column by its bytes, the highest first. -/
def column (a b c d : Byte) : BitVec 32 := place 3 a ^^^ place 2 b ^^^ place 1 c ^^^ place 0 d

theorem place_additive (i : Nat) : Additive (place i) := (additive_shiftLeft (8 * i)).comp (additive_setWidth 32)

theorem byteAt_additive (i : Nat) : Additive (byteAt i) := fun _ _ => BitVec.extractLsb'_xor

/-- The places at the single bits of a byte, evaluated. -/
theorem place_bits :
    (∀ i < 3, ∀ k < 8, place i (BitVec.twoPow 8 k) = (place 3 (BitVec.twoPow 8 k)).rotateRight (8 * (3 - i))) ∧
      (∀ i < 4, ∀ k < 8, byteAt i (place i (BitVec.twoPow 8 k)) = BitVec.twoPow 8 k) ∧
      ∀ i < 4, ∀ j < 4, i ≠ j → ∀ k < 8, byteAt j (place i (BitVec.twoPow 8 k)) = 0 := by
  decide

theorem place_rotateRight (x : Byte) {i : Nat} (inside : i < 3) :
    place i x = (place 3 x).rotateRight (8 * (3 - i)) :=
  (place_additive i).ext ((additive_rotateRight _).comp (place_additive 3)) (place_bits.1 i inside) x

theorem byteAt_place {i : Nat} (inside : i < 4) (x : Byte) : byteAt i (place i x) = x :=
  ((byteAt_additive i).comp (place_additive i)).ext additive_id (place_bits.2.1 i inside) x

theorem byteAt_place_of_ne {i j : Nat} (inside : i < 4) (last : j < 4) (differ : i ≠ j) (x : Byte) :
    byteAt j (place i x) = 0 := by
  have zero : Additive fun _ : Byte => (0 : Byte) := fun _ _ => BitVec.xor_self.symm
  exact ((byteAt_additive j).comp (place_additive i)).ext zero (place_bits.2.2 i inside j last differ) x

theorem byteAt_column (a b c d : Byte) :
    byteAt 3 (column a b c d) = a ∧ byteAt 2 (column a b c d) = b ∧ byteAt 1 (column a b c d) = c ∧
      byteAt 0 (column a b c d) = d := by
  simp [column, byteAt_additive _ _ _, byteAt_place, byteAt_place_of_ne]

/-- The bytes at the single bits of a column, evaluated. -/
theorem byteAt_bits :
    (∀ k < 32, column (byteAt 3 (BitVec.twoPow 32 k)) (byteAt 2 (BitVec.twoPow 32 k)) (byteAt 1 (BitVec.twoPow 32 k))
      (byteAt 0 (BitVec.twoPow 32 k)) = BitVec.twoPow 32 k) ∧
      (∀ k < 32, BitVec.twoPow 32 k >>> 24 = (byteAt 3 (BitVec.twoPow 32 k)).setWidth 32) ∧
      ∀ i < 4, ∀ k < 32, (BitVec.twoPow 32 k >>> (8 * i)) &&& 0xff = (byteAt i (BitVec.twoPow 32 k)).setWidth 32 := by
  decide

theorem column_bytes (w : BitVec 32) : column (byteAt 3 w) (byteAt 2 w) (byteAt 1 w) (byteAt 0 w) = w := by
  have kept (i : Nat) : Additive fun w => place i (byteAt i w) := (place_additive i).comp (byteAt_additive i)
  exact ((((kept 3).xor (kept 2)).xor (kept 1)).xor (kept 0)).ext additive_id byteAt_bits.1 w

/-- The four ways the rounds take a byte out of a word. -/
theorem byteAt_masked (w : BitVec 32) :
    w >>> 24 = (byteAt 3 w).setWidth 32 ∧ (w >>> 16) &&& 0xff = (byteAt 2 w).setWidth 32 ∧
      (w >>> 8) &&& 0xff = (byteAt 1 w).setWidth 32 ∧ w &&& 0xff = (byteAt 0 w).setWidth 32 := by
  have wide (i : Nat) : Additive fun w : BitVec 32 => (byteAt i w).setWidth 32 :=
    (additive_setWidth 32).comp (byteAt_additive i)
  have masked (count : Nat) : Additive fun w : BitVec 32 => (w >>> count) &&& 0xff :=
    (additive_and 0xff).comp (additive_shiftRight count)
  have bits := byteAt_bits.2.2
  exact ⟨(additive_shiftRight 24).ext (wide 3) byteAt_bits.2.1 w, (masked 16).ext (wide 2) (bits 2 (by decide)) w,
    (masked 8).ext (wide 1) (bits 1 (by decide)) w, (masked 0).ext (wide 0) (bits 0 (by decide)) w⟩

end Columns

section Tables

/-- The substitution of a byte, which every byte of an entry of `Te4` holds. -/
def sub (x : Byte) : Byte := (Te4.getD x.toNat 0).setWidth 8

def unsub (x : Byte) : Byte := Td4.getD x.toNat 0

/-- Two tables that agree after a map agree at every index. -/
theorem getD_of_map {α β γ : Type} {A : List α} {B : List β} {f : α → γ} {g : β → γ} (same : A.map f = B.map g)
    {a : α} {b : β} (outside : f a = g b) (i : Nat) : f (A.getD i a) = g (B.getD i b) := by
  calc f (A.getD i a) = (A.map f).getD i (f a) := (List.getD_map A a f).symm
    _ = (B.map g).getD i (g b) := by rw [same, outside]
    _ = g (B.getD i b) := List.getD_map B b g

/-- A list without its first entries, in a form that evaluates fast. -/
def tails {α : Type} (l : List α) (i : Nat) : List α := Nat.rec l (fun _ rest => rest.tail) i

theorem tails_eq_drop {α : Type} (l : List α) (i : Nat) : tails l i = l.drop i := by
  induction i with
  | zero => rfl
  | succ i ih =>
      calc tails l (i + 1) = (tails l i).tail := rfl
        _ = l.drop (i + 1) := by rw [ih, List.tail_drop]

theorem headD_tails {α : Type} (l : List α) (i : Nat) (d : α) : (tails l i).headD d = l.getD i d := by
  rw [tails_eq_drop, List.headD_eq_head?_getD, List.head?_drop, List.getD_eq_getElem?_getD]

/-- What the tables have to do with each other, evaluated. -/
theorem tables_related :
    Te4.map (fun t => (tails Td4 (t.setWidth 8).toNat).headD 0) = (List.range 256).map (BitVec.ofNat 8) ∧
      Te0.map (fun t => t) = Te4.map (fun t => mixWord (place 3 (t.setWidth 8))) ∧
      Td0.map mixWord = Td4.map (place 3) ∧
      Te0.map (fun t => (t.rotateRight 16 &&& 0xff000000, t.rotateRight 24 &&& 0x00ff0000, t &&& 0x0000ff00,
        t.rotateRight 8 &&& 0x000000ff)) = Te4.map (fun t =>
          (place 3 (t.setWidth 8), place 2 (t.setWidth 8), place 1 (t.setWidth 8), place 0 (t.setWidth 8))) := by
  decide +kernel

theorem unsub_sub (x : Byte) : unsub (sub x) = x := by
  have outside : (tails Td4 ((0 : BitVec 32).setWidth 8).toNat).headD 0 = BitVec.ofNat 8 0x52 := rfl
  have entry := getD_of_map tables_related.1 outside x.toNat
  have index : (List.range 256).getD x.toNat 0x52 = x.toNat := by simp [List.getD_eq_getElem?_getD, x.isLt]
  rw [headD_tails, index, BitVec.ofNat_toNat, BitVec.setWidth_eq] at entry
  exact entry

theorem te0_mixed (x : Byte) : te0 (x.setWidth 32) = mixWord (place 3 (sub x)) := by
  have index : (x.setWidth 32).toNat = x.toNat := BitVec.toNat_setWidth_of_le (by decide)
  rw [te0, index]
  exact getD_of_map tables_related.2.1 (by decide) x.toNat

theorem td0_mixed (x : Byte) : td0 (x.setWidth 32) = unmixWord (place 3 (unsub x)) := by
  have index : (x.setWidth 32).toNat = x.toNat := BitVec.toNat_setWidth_of_le (by decide)
  have mixed : mixWord (Td0.getD x.toNat 0) = place 3 (Td4.getD x.toNat 0) :=
    getD_of_map tables_related.2.2.1 (by decide) x.toNat
  rw [td0, index, unsub, ← mixed, unmixWord_mixWord]

theorem te0_masked (x : Byte) :
    Te2_r (x.setWidth 32) &&& 0xff000000#32 = place 3 (sub x) ∧
      Te3_r (x.setWidth 32) &&& 0x00ff0000#32 = place 2 (sub x) ∧
      te0 (x.setWidth 32) &&& 0x0000ff00#32 = place 1 (sub x) ∧
      Te1_r (x.setWidth 32) &&& 0x000000ff#32 = place 0 (sub x) := by
  have index : (x.setWidth 32).toNat = x.toNat := BitVec.toNat_setWidth_of_le (by decide)
  have entry := @getD_of_map _ _ _ _ _ _ _ tables_related.2.2.2 0 0 (by decide) x.toNat
  simp only [Prod.mk.injEq] at entry
  rw [Te2_r, Te3_r, Te1_r, te0, index]
  exact entry

theorem te4_masked (x : Byte) : te4 (x.setWidth 32) &&& 0xff = (sub x).setWidth 32 := by
  have index : (x.setWidth 32).toNat = x.toNat := BitVec.toNat_setWidth_of_le (by decide)
  have low (t : BitVec 32) : t &&& 0xff = (t.setWidth 8).setWidth 32 := by
    have byte : byteAt 0 t = t.setWidth 8 := BitVec.setWidth_eq_extractLsb' (by decide) |>.symm
    rw [(byteAt_masked t).2.2.2, byte]
  rw [te4, index, low, sub]

end Tables

section Words

theorem lastWord_eq (a b c d key : BitVec 32) :
    lastWord a b c d key =
      column (sub (byteAt 3 a)) (sub (byteAt 2 b)) (sub (byteAt 1 c)) (sub (byteAt 0 d)) ^^^ key := by
  rw [lastWord, (byteAt_masked a).1, (byteAt_masked b).2.1, (byteAt_masked c).2.2.1, (byteAt_masked d).2.2.2]
  change (Te2_r _ &&& 0xff000000#32) ^^^ (Te3_r _ &&& 0x00ff0000#32) ^^^ (te0 _ &&& 0x0000ff00#32) ^^^
    (Te1_r _ &&& 0x000000ff#32) ^^^ key = _
  rw [(te0_masked _).1, (te0_masked _).2.1, (te0_masked _).2.2.1, (te0_masked _).2.2.2]
  rfl

theorem inverseLastWord_eq (a b c d key : BitVec 32) :
    inverseLastWord a b c d key =
      column (unsub (byteAt 3 a)) (unsub (byteAt 2 b)) (unsub (byteAt 1 c)) (unsub (byteAt 0 d)) ^^^ key := by
  have entry (x : Byte) : td4 (x.setWidth 32) = (unsub x).setWidth 32 := by
    rw [td4, BitVec.toNat_setWidth_of_le (by decide), unsub]
  have low (x : Byte) : x.setWidth 32 = place 0 x := (BitVec.shiftLeft_zero _).symm
  rw [inverseLastWord, (byteAt_masked a).1, (byteAt_masked b).2.1, (byteAt_masked c).2.2.1, (byteAt_masked d).2.2.2,
    entry, entry, entry, entry, low (unsub (byteAt 0 d))]
  rfl

theorem roundWord_eq (a b c d key : BitVec 32) :
    roundWord a b c d key =
      mixWord (column (sub (byteAt 3 a)) (sub (byteAt 2 b)) (sub (byteAt 1 c)) (sub (byteAt 0 d))) ^^^ key := by
  have turned (x : Byte) {i : Nat} (inside : i < 3) (places : 8 * (3 - i) ∈ [8, 16, 24]) :
      (te0 (x.setWidth 32)).rotateRight (8 * (3 - i)) = mixWord (place i (sub x)) := by
    rw [te0_mixed, place_rotateRight _ inside, mixWord_rotateRight places]
  rw [roundWord, (byteAt_masked a).1, (byteAt_masked b).2.1, (byteAt_masked c).2.2.1, (byteAt_masked d).2.2.2]
  rw [column, mixWord_additive, mixWord_additive, mixWord_additive, ← te0_mixed, ← turned _ (by decide) (by decide),
    ← turned _ (by decide) (by decide), ← turned _ (by decide) (by decide)]
  rfl

theorem td0_columns (a b c d : Byte) :
    td0 (a.setWidth 32) ^^^ Td1_r (b.setWidth 32) ^^^ Td2_r (c.setWidth 32) ^^^ Td3_r (d.setWidth 32) =
      unmixWord (column (unsub a) (unsub b) (unsub c) (unsub d)) := by
  have turned (x : Byte) {i : Nat} (inside : i < 3) (places : 8 * (3 - i) ∈ [8, 16, 24]) :
      (td0 (x.setWidth 32)).rotateRight (8 * (3 - i)) = unmixWord (place i (unsub x)) := by
    rw [td0_mixed, place_rotateRight _ inside, unmixWord_rotateRight places]
  rw [column, unmixWord_additive, unmixWord_additive, unmixWord_additive, ← td0_mixed,
    ← turned _ (by decide) (by decide), ← turned _ (by decide) (by decide), ← turned _ (by decide) (by decide)]
  rfl

theorem inverseWord_eq (a b c d key : BitVec 32) :
    inverseWord a b c d key =
      unmixWord (column (unsub (byteAt 3 a)) (unsub (byteAt 2 b)) (unsub (byteAt 1 c)) (unsub (byteAt 0 d))) ^^^
        key := by
  rw [inverseWord, (byteAt_masked a).1, (byteAt_masked b).2.1, (byteAt_masked c).2.2.1, (byteAt_masked d).2.2.2,
    td0_columns]

/-- In the second key schedule the substitutions of the two tables cancel. -/
theorem mixedKey_eq (rk : BitVec 32) : mixedKey rk = unmixWord rk := by
  rw [mixedKey, (byteAt_masked rk).1, (byteAt_masked rk).2.1, (byteAt_masked rk).2.2.1, (byteAt_masked rk).2.2.2,
    te4_masked, te4_masked, te4_masked, te4_masked, td0_columns, unsub_sub, unsub_sub, unsub_sub, unsub_sub,
    column_bytes]

end Words

section Keys

variable {rk : List (BitVec 32)}

/-- Where the word at `k` was before the words at `i` and `j` were exchanged. -/
def exchange (i j k : Nat) : Nat := if k = j then i else if k = i then j else k

theorem getD_set {i : Nat} (inside : i < rk.length) (v : BitVec 32) (k : Nat) :
    (rk.set i v).getD k 0 = if k = i then v else rk.getD k 0 := by
  rw [List.getD_eq_getElem?_getD, List.getElem?_set]
  by_cases here : i = k
  · rw [if_pos here, if_pos here.symm, if_pos inside, Option.getD_some]
  · rw [if_neg here, if_neg (Ne.symm here), List.getD_eq_getElem?_getD]

theorem swapKey_length (i j : Nat) : (swapKey i j rk).length = rk.length := by simp [swapKey]

theorem swapKey_getD {i j : Nat} (first : i < rk.length) (second : j < rk.length) (k : Nat) :
    (swapKey i j rk).getD k 0 = rk.getD (exchange i j k) 0 := by
  rw [swapKey, getD_set (by rwa [List.length_set]), getD_set first, exchange]
  split
  · rfl
  · split <;> rfl

theorem mixKey_length (i : Nat) : (mixKey i rk).length = rk.length := List.length_set

theorem mixKey_getD {i : Nat} (inside : i < rk.length) (k : Nat) :
    (mixKey i rk).getD k 0 = if k = i then mixedKey (rk.getD k 0) else rk.getD k 0 := by
  rw [mixKey, getD_set inside]
  split
  · rename_i here
    rw [here]
  · rfl

theorem eachWord_eq (f : Nat → List (BitVec 32) → List (BitVec 32)) : eachWord f rk = f 3 (f 2 (f 1 (f 0 rk))) := rfl

theorem eachWord_length {f : Nat → List (BitVec 32) → List (BitVec 32)} (same : ∀ c rk, (f c rk).length = rk.length) :
    (eachWord f rk).length = rk.length := by
  simp only [eachWord_eq, same]

theorem swapKeys_length (turns : Nat) : (swapKeys turns rk).length = rk.length := by
  induction turns with
  | zero => rfl
  | succ t ih =>
      rw [swapKeys, List.range_succ, List.foldl_append, List.foldl_cons, List.foldl_nil,
        eachWord_length fun _ _ => swapKey_length _ _]
      exact ih

theorem mixKeys_length (turns : Nat) : (mixKeys turns rk).length = rk.length := by
  induction turns with
  | zero => rfl
  | succ t ih =>
      rw [mixKeys, List.range_succ, List.foldl_append, List.foldl_cons, List.foldl_nil,
        eachWord_length fun _ _ => mixKey_length _]
      exact ih

theorem exchange_same (i j q c : Nat) : exchange (4 * i + c) (4 * j + c) (4 * q + c) = 4 * exchange i j q + c := by
  unfold exchange
  split_ifs <;> omega

theorem exchange_other (i j q : Nat) {c d : Nat} (word : c < 4) (other : d < 4) (differ : c ≠ d) :
    exchange (4 * i + c) (4 * j + c) (4 * q + d) = 4 * q + d := by
  unfold exchange
  rw [if_neg (by omega), if_neg (by omega)]

/-- The four exchanges of a turn are one of the round keys. -/
theorem exchange_words (i j q : Nat) {c : Nat} (word : c < 4) :
    exchange (4 * i + 0) (4 * j + 0) (exchange (4 * i + 1) (4 * j + 1) (exchange (4 * i + 2) (4 * j + 2)
      (exchange (4 * i + 3) (4 * j + 3) (4 * q + c)))) = 4 * exchange i j q + c := by
  have words : c = 0 ∨ c = 1 ∨ c = 2 ∨ c = 3 := by omega
  rcases words with rfl | rfl | rfl | rfl <;> simp [exchange_same, exchange_other, -add_zero, -Nat.add_zero]

theorem swapTurn_getD {i j : Nat} (first : 4 * i + 3 < rk.length) (second : 4 * j + 3 < rk.length) (q : Nat) {c : Nat}
    (word : c < 4) :
    (eachWord (fun c => swapKey (4 * i + c) (4 * j + c)) rk).getD (4 * q + c) 0 =
      rk.getD (4 * exchange i j q + c) 0 := by
  rw [← exchange_words i j q word, eachWord_eq]
  rw [swapKey_getD, swapKey_getD, swapKey_getD, swapKey_getD] <;> (try simp only [swapKey_length]) <;> omega

/-- After some turns the round keys at the ends are in reverse order, those in the middle as they were. -/
theorem swapKeys_getD {turns : Nat} (few : turns ≤ 7) (whole : rk.length = 60) {q : Nat} (inside : q < 15) {c : Nat}
    (word : c < 4) :
    (swapKeys turns rk).getD (4 * q + c) 0 =
      rk.getD (4 * (if q < turns ∨ 14 < q + turns then 14 - q else q) + c) 0 := by
  induction turns generalizing q with
  | zero => rw [if_neg (by omega)]; rfl
  | succ t ih =>
      have length : (swapKeys t rk).length = 60 := (swapKeys_length t).trans whole
      have target (c : Nat) : 56 - 4 * t + c = 4 * (14 - t) + c := by omega
      have reached : exchange t (14 - t) q < 15 := by
        unfold exchange
        split_ifs <;> omega
      have before : (if exchange t (14 - t) q < t ∨ 14 < exchange t (14 - t) q + t then 14 - exchange t (14 - t) q
          else exchange t (14 - t) q) = if q < t + 1 ∨ 14 < q + (t + 1) then 14 - q else q := by
        unfold exchange
        split_ifs <;> omega
      calc (swapKeys (t + 1) rk).getD (4 * q + c) 0
          _ = (eachWord (fun c => swapKey (4 * t + c) (4 * (14 - t) + c)) (swapKeys t rk)).getD (4 * q + c) 0 := by
              rw [swapKeys, List.range_succ, List.foldl_append, List.foldl_cons, List.foldl_nil]
              simp only [target]
              rfl
          _ = (swapKeys t rk).getD (4 * exchange t (14 - t) q + c) 0 := swapTurn_getD (by omega) (by omega) q word
          _ = _ := by rw [ih (by omega) reached, before]

theorem mixTurn_getD {i : Nat} (inside : 4 * i + 3 < rk.length) (q : Nat) {c : Nat} (word : c < 4) :
    (eachWord (fun c => mixKey (4 * i + c)) rk).getD (4 * q + c) 0 =
      if q = i then mixedKey (rk.getD (4 * q + c) 0) else rk.getD (4 * q + c) 0 := by
  rw [eachWord_eq, mixKey_getD (by simp only [mixKey_length]; omega), mixKey_getD (by simp only [mixKey_length]; omega),
    mixKey_getD (by simp only [mixKey_length]; omega), mixKey_getD (by omega)]
  by_cases here : q = i
  · have words : c = 0 ∨ c = 1 ∨ c = 2 ∨ c = 3 := by omega
    rcases words with rfl | rfl | rfl | rfl <;> simp [here]
  · rw [if_neg here, if_neg (by omega), if_neg (by omega), if_neg (by omega), if_neg (by omega)]

theorem mixKeys_getD {turns : Nat} (few : turns ≤ 13) (whole : rk.length = 60) (q : Nat) {c : Nat} (word : c < 4) :
    (mixKeys turns rk).getD (4 * q + c) 0 =
      if 1 ≤ q ∧ q ≤ turns then mixedKey (rk.getD (4 * q + c) 0) else rk.getD (4 * q + c) 0 := by
  induction turns with
  | zero => rw [if_neg (by omega)]; rfl
  | succ t ih =>
      have length : (mixKeys t rk).length = 60 := (mixKeys_length t).trans whole
      calc (mixKeys (t + 1) rk).getD (4 * q + c) 0
          _ = (eachWord (fun c => mixKey (4 * (t + 1) + c)) (mixKeys t rk)).getD (4 * q + c) 0 := by
              rw [mixKeys, List.range_succ, List.foldl_append, List.foldl_cons, List.foldl_nil]
              rfl
          _ = if q = t + 1 then mixedKey ((mixKeys t rk).getD (4 * q + c) 0) else (mixKeys t rk).getD (4 * q + c) 0 :=
              mixTurn_getD (by omega) q word
          _ = _ := by
              rw [ih (by omega)]
              by_cases last : q = t + 1
              · rw [if_pos last, if_neg (by omega), if_pos (by omega)]
              · rw [if_neg last]
                exact if_congr (by omega) rfl rfl

theorem expand_length (i : Nat) (rk : List (BitVec 32)) : (expand i rk).length = 8 := rfl

theorem expandFrom_length (turns i : Nat) (whole : rk.length = 8) :
    (expandFrom turns i rk).length = 8 * (turns + 1) := by
  induction turns generalizing i rk with
  | zero => exact whole
  | succ t ih => rw [expandFrom, List.length_append, ih _ (expand_length i rk), whole]; omega

theorem p_initSW_length (key : BitVec 256) : (p_initSW key).length = 60 := by
  rw [p_initSW, List.length_take, expandFrom_length 7 0 (by simp)]
  rfl

/-- The round keys of `p_decryptSW` are those of `p_encryptSW` in reverse order, unmixed except for the outer two. -/
theorem decryptKeys_getD (whole : rk.length = 60) {q : Nat} (inside : q < 15) {c : Nat} (word : c < 4) :
    (decryptKeys rk).getD (4 * q + c) 0 =
      if 1 ≤ q ∧ q ≤ 13 then unmixWord (rk.getD (4 * (14 - q) + c) 0) else rk.getD (4 * (14 - q) + c) 0 := by
  have reversed : (if q < 7 ∨ 14 < q + 7 then 14 - q else q) = 14 - q := by
    split_ifs <;> omega
  rw [decryptKeys, mixKeys_getD le_rfl ((swapKeys_length 7).trans whole) q word, swapKeys_getD le_rfl whole inside word,
    reversed, mixedKey_eq]

end Keys

section Inverse

def xorBlock (a b : Block) : Block := ⟨a.w0 ^^^ b.w0, a.w1 ^^^ b.w1, a.w2 ^^^ b.w2, a.w3 ^^^ b.w3⟩

/-- The substitution of all bytes, which are also moved along their rows. -/
def subBlock (s : Block) : Block :=
  ⟨column (sub (byteAt 3 s.w0)) (sub (byteAt 2 s.w1)) (sub (byteAt 1 s.w2)) (sub (byteAt 0 s.w3)),
    column (sub (byteAt 3 s.w1)) (sub (byteAt 2 s.w2)) (sub (byteAt 1 s.w3)) (sub (byteAt 0 s.w0)),
    column (sub (byteAt 3 s.w2)) (sub (byteAt 2 s.w3)) (sub (byteAt 1 s.w0)) (sub (byteAt 0 s.w1)),
    column (sub (byteAt 3 s.w3)) (sub (byteAt 2 s.w0)) (sub (byteAt 1 s.w1)) (sub (byteAt 0 s.w2))⟩

def unsubBlock (s : Block) : Block :=
  ⟨column (unsub (byteAt 3 s.w0)) (unsub (byteAt 2 s.w3)) (unsub (byteAt 1 s.w2)) (unsub (byteAt 0 s.w1)),
    column (unsub (byteAt 3 s.w1)) (unsub (byteAt 2 s.w0)) (unsub (byteAt 1 s.w3)) (unsub (byteAt 0 s.w2)),
    column (unsub (byteAt 3 s.w2)) (unsub (byteAt 2 s.w1)) (unsub (byteAt 1 s.w0)) (unsub (byteAt 0 s.w3)),
    column (unsub (byteAt 3 s.w3)) (unsub (byteAt 2 s.w2)) (unsub (byteAt 1 s.w1)) (unsub (byteAt 0 s.w0))⟩

def mixBlock (s : Block) : Block := ⟨mixWord s.w0, mixWord s.w1, mixWord s.w2, mixWord s.w3⟩

def unmixBlock (s : Block) : Block := ⟨unmixWord s.w0, unmixWord s.w1, unmixWord s.w2, unmixWord s.w3⟩

def keyAt (rk : List (BitVec 32)) (r : Nat) : Block :=
  ⟨rk.getD (4 * r) 0, rk.getD (4 * r + 1) 0, rk.getD (4 * r + 2) 0, rk.getD (4 * r + 3) 0⟩

theorem xorBlock_cancel (a b : Block) : xorBlock (xorBlock a b) b = a := by
  simp only [xorBlock, BitVec.xor_assoc, BitVec.xor_self, BitVec.xor_zero]

theorem unsubBlock_subBlock (s : Block) : unsubBlock (subBlock s) = s := by
  simp only [unsubBlock, subBlock, byteAt_column, unsub_sub, column_bytes]

theorem unmixBlock_mixBlock (s : Block) : unmixBlock (mixBlock s) = s := by
  simp only [unmixBlock, mixBlock, unmixWord_mixWord]

theorem unmixBlock_xorBlock (a b : Block) : unmixBlock (xorBlock a b) = xorBlock (unmixBlock a) (unmixBlock b) := by
  simp only [unmixBlock, xorBlock, unmixWord_additive _ _]

variable (rk : List (BitVec 32))

theorem roundWith_roundWord (r : Nat) (s : Block) :
    roundWith roundWord rk (4 * r) s = xorBlock (mixBlock (subBlock s)) (keyAt rk r) := by
  simp only [roundWith, roundWord_eq]
  rfl

theorem inverseRoundWith_inverseWord (r : Nat) (s : Block) :
    inverseRoundWith inverseWord rk (4 * r) s = xorBlock (unmixBlock (unsubBlock s)) (keyAt rk r) := by
  simp only [inverseRoundWith, inverseWord_eq]
  rfl

theorem p_encryptSW_eq (x : Block) :
    p_encryptSW rk x =
      encryptRounds xorBlock subBlock mixBlock (keyAt rk 0) (keyAt rk 14)
        ((List.range 13).map fun i => keyAt rk (i + 1)) x := by
  simp only [p_encryptSW, rounds, roundWith_roundWord, encryptRounds, List.foldl_map]
  simp only [roundWith, lastWord_eq]
  rfl

theorem p_decryptSW_eq (y : Block) :
    p_decryptSW rk y = decryptRounds xorBlock unsubBlock unmixBlock (keyAt rk 0) (keyAt rk 14)
      ((List.range 13).map fun i => keyAt rk (i + 1)) y := by
  simp only [p_decryptSW, inverseRoundWith_inverseWord, decryptRounds, List.foldl_map]
  simp only [inverseRoundWith, inverseLastWord_eq]
  rfl

variable {rk}

theorem keyAt_decryptKeys (whole : rk.length = 60) {q : Nat} (inside : q < 15) :
    keyAt (decryptKeys rk) q = if 1 ≤ q ∧ q ≤ 13 then unmixBlock (keyAt rk (14 - q)) else keyAt rk (14 - q) := by
  have word (c : Nat) (below : c < 4) := decryptKeys_getD whole inside below
  have first := word 0 (by decide)
  rw [Nat.add_zero, Nat.add_zero] at first
  rw [keyAt, first, word 1 (by decide), word 2 (by decide), word 3 (by decide)]
  split_ifs <;> rfl

theorem decryptKeys_rounds (whole : rk.length = 60) :
    ((List.range 13).map fun i => keyAt (decryptKeys rk) (i + 1)) =
      ((List.range 13).map fun i => keyAt rk (i + 1)).reverse.map unmixBlock := by
  have turned : (List.range 13).reverse = (List.range 13).map fun i => 12 - i := by decide
  rw [← List.map_reverse, turned, List.map_map, List.map_map]
  apply List.map_congr_left
  intro i inside
  have below : i < 13 := List.mem_range.mp inside
  have opposite : 14 - (i + 1) = 12 - i + 1 := by omega
  rw [keyAt_decryptKeys whole (by omega), if_pos (by omega), opposite]
  rfl

theorem p_decryptSW_p_encryptSW (whole : rk.length = 60) (x : Block) :
    p_decryptSW (decryptKeys rk) (p_encryptSW rk x) = x := by
  have outer : keyAt (decryptKeys rk) 0 = keyAt rk 14 ∧ keyAt (decryptKeys rk) 14 = keyAt rk 0 :=
    ⟨keyAt_decryptKeys whole (by decide), keyAt_decryptKeys whole (by decide)⟩
  rw [p_decryptSW_eq, p_encryptSW_eq, outer.1, outer.2, decryptKeys_rounds whole]
  exact decryptRounds_encryptRounds xorBlock_cancel unsubBlock_subBlock unmixBlock_mixBlock unmixBlock_xorBlock _ _ _ x

instance Block.instFinite : Finite Block := by
  have word : Finite (BitVec 32) := Finite.of_injective BitVec.toFin fun _ _ => BitVec.eq_of_toFin_eq
  apply Finite.of_injective fun b : Block => (b.w0, b.w1, b.w2, b.w3)
  intro a b same
  cases a
  cases b
  simpa using same

/-- Under every key each of the two block functions undoes the other. -/
theorem block_functions_inverse (key : BitVec 256) (block : Block) :
    p_decryptSW (decryptKeys (p_initSW key)) (p_encryptSW (p_initSW key) block) = block ∧
      p_encryptSW (p_initSW key) (p_decryptSW (decryptKeys (p_initSW key)) block) = block := by
  have undone := p_decryptSW_p_encryptSW (p_initSW_length key)
  exact ⟨undone block, right_inverse undone block⟩

end Inverse

end ZeroTierNode.AesBlock
