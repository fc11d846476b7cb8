import ZeroTierNode.GmacSiv
import ZeroTierNode.Poly1305
import ZeroTierNode.Salsa20

/-!
`Packet::armor` and `Packet::dearmor` where they work, on the packet in memory, with the ciphers of this repository:
only `ECC` is left open. What they do to the bytes of a packet is what they do to a packet in the model of which the
round trip is proved.
-/

namespace ZeroTierNode.ArmorMemory
open Library.Bytes Library.Ciphers Library.StreamBuffers Gmac GmacSiv
open Armor (AesKeys)

/-- `count` bytes of memory. -/
def bytesAt (m : Memory) (a count : Nat) : List Byte := (List.range count).map fun i => m (a + i)

section Bytes

variable {m m' : Memory} {a n k count : Nat} {bytes : Nat → Byte}

@[simp] theorem length_bytesAt (m : Memory) (a n : Nat) : (bytesAt m a n).length = n := by
  rw [bytesAt, List.length_map, List.length_range]

theorem getD_bytesAt {i : Nat} (inside : i < n) : (bytesAt m a n).getD i 0 = m (a + i) := by
  rw [bytesAt, List.getD_eq_getElem?_getD, List.getElem?_map, List.getElem?_range inside]
  rfl

theorem bytesAt_congr (same : ∀ i < n, m (a + i) = m' (a + i)) : bytesAt m a n = bytesAt m' a n :=
  List.map_congr_left fun i member => same i (List.mem_range.mp member)

theorem bytesAt_add (m : Memory) (a n k : Nat) : bytesAt m a (n + k) = bytesAt m a n ++ bytesAt m (a + n) k := by
  simp only [bytesAt, List.range_add, List.map_append, List.map_map, Function.comp_def, Nat.add_assoc]

theorem take_bytesAt (le : k ≤ n) : (bytesAt m a n).take k = bytesAt m a k := by
  have split := bytesAt_add m a k (n - k)
  rw [Nat.add_sub_cancel' le] at split
  rw [split, List.take_left' (length_bytesAt m a k)]

theorem drop_bytesAt (le : k ≤ n) : (bytesAt m a n).drop k = bytesAt m (a + k) (n - k) := by
  have split := bytesAt_add m a k (n - k)
  rw [Nat.add_sub_cancel' le] at split
  rw [split, List.drop_left' (length_bytesAt m a k)]

theorem fieldAt_bytesAt (inside : k + count ≤ n) : Packet.fieldAt (bytesAt m a n) k count = bytesAt m (a + k) count := by
  rw [Packet.fieldAt, drop_bytesAt (by omega), take_bytesAt (by omega)]

theorem byteAt_bytesAt (inside : k < n) : Packet.byteAt (bytesAt m a n) k = m (a + k) := getD_bytesAt inside

/-- What is written inside is written over. -/
theorem bytesAt_written (inside : k + count ≤ n) :
    bytesAt (written (a + k) bytes count m) a n = overwrite (bytesAt m a n) k ((List.range count).map bytes) := by
  have parts : n = k + count + (n - (k + count)) := by omega
  have before : bytesAt (written (a + k) bytes count m) a k = bytesAt m a k :=
    bytesAt_congr fun i below => written_outside (by omega)
  have middle : bytesAt (written (a + k) bytes count m) (a + k) count = (List.range count).map bytes :=
    List.map_congr_left fun i member => written_inside (List.mem_range.mp member)
  have behind : bytesAt (written (a + k) bytes count m) (a + (k + count)) (n - (k + count)) =
      bytesAt m (a + (k + count)) (n - (k + count)) :=
    bytesAt_congr fun i below => written_outside (by omega)
  rw [overwrite, take_bytesAt (by omega), List.length_map, List.length_range, drop_bytesAt inside]
  conv_lhs => rw [parts, bytesAt_add, bytesAt_add, before, middle, behind]

theorem bytesAt_written_self {bytes : List Byte} (length : bytes.length = n) :
    bytesAt (written a (fun i => bytes.getD i 0) n m) a n = bytes := by
  rw [← length]
  apply List.ext_getElem
  · rw [length_bytesAt]
  · intro i below also
    rw [← List.getD_eq_getElem _ 0 below, getD_bytesAt also, written_inside also, List.getD_eq_getElem _ _ also]

theorem bytesAt_set (octet : Byte) :
    bytesAt (Function.update m (a + k) octet) a n = (bytesAt m a n).set k octet := by
  apply List.ext_getElem
  · rw [List.length_set, length_bytesAt, length_bytesAt]
  · intro i below also
    rw [List.getElem_set]
    simp only [bytesAt, List.getElem_map, List.getElem_range]
    by_cases here : k = i
    · rw [if_pos here, here, Function.update_self]
    · rw [if_neg here, Function.update_of_ne (by omega)]

/-- A part that is encrypted where it is. -/
theorem xorStream_bytesAt (stream : Nat → Byte) :
    xorStream stream (bytesAt m a n) = (List.range n).map fun i => m (a + i) ^^^ stream i := by
  apply List.ext_getElem
  · rw [length_xorStream, length_bytesAt, List.length_map, List.length_range]
  · intro i below also
    simp only [xorStream, bytesAt, List.getElem_mapIdx, List.getElem_map, List.getElem_range]

end Bytes

section Words

variable {v w : BitVec 64}

theorem hton64_byte (v : BitVec 64) {i : Nat} (inside : i < 8) :
    (hton64 v).extractLsb' (8 * i) 8 = v.extractLsb' (56 - 8 * i) 8 := word64_byte _ inside

theorem hton64_xor (v w : BitVec 64) : hton64 (v ^^^ w) = hton64 v ^^^ hton64 w :=
  eq_of_bytes fun i inside => by
    rw [BitVec.extractLsb'_xor, hton64_byte _ inside, hton64_byte _ inside, hton64_byte _ inside, BitVec.extractLsb'_xor]

theorem hton64_and (v w : BitVec 64) : hton64 (v &&& w) = hton64 v &&& hton64 w :=
  eq_of_bytes fun i inside => by
    rw [BitVec.extractLsb'_and, hton64_byte _ inside, hton64_byte _ inside, hton64_byte _ inside, BitVec.extractLsb'_and]

/-- The bytes of a word as they are in memory. -/
theorem wordBytes_hton64 (v : BitVec 64) :
    wordBytes 8 (hton64 v) = (List.range 8).map fun i => v.extractLsb' (8 * i) 8 := by
  have octet (k : Nat) (inside : k < 8) : BitVec.ofNat 8 ((hton64 v).toNat / 256 ^ k) = v.extractLsb' (56 - 8 * k) 8 := by
    rw [← hton64_byte v inside]
    apply BitVec.eq_of_toNat_eq
    rw [BitVec.extractLsb'_toNat, BitVec.toNat_ofNat, Nat.shiftRight_eq_div_pow, Nat.pow_mul]
  simp only [wordBytes, bigEndian, octet, Nat.reduceLT, Nat.reduceMul, Nat.reduceSub]
  rfl

theorem bytesAt_word (m : Memory) (a : Nat) : bytesAt m a 8 = wordBytes 8 (hton64 (load64 m a)) := by
  rw [wordBytes_hton64]
  apply List.map_congr_left
  intro i member
  rw [load64, word64_byte _ (List.mem_range.mp member)]

theorem wordOf_bytesAt (m : Memory) (a : Nat) : wordOf 64 (bytesAt m a 8) = hton64 (load64 m a) := by
  rw [bytesAt_word, wordOf_wordBytes 8 _ (by decide)]

end Words

section Code

/-- `ECC` on the first halves of the keys. -/
structure Curve where
  calcPubDH : BitVec 256 → BitVec 256
  agree : BitVec 256 → BitVec 256 → BitVec 256

/-- What there is beside the packet: `ZERO_KEY`, `macKey`, and the buffer of `crypt12`. -/
structure Stack where
  zeroKey : Nat
  macKey : Nat
  tmp : Nat

/-- Where they are, beside a packet with its whole buffer. -/
structure Stack.Placed (stack : Stack) (data : Nat) (m : Memory) : Prop where
  zeros : ∀ i < 32, m (stack.zeroKey + i) = 0
  keys : stack.zeroKey + 32 ≤ stack.macKey ∨ stack.macKey + 32 ≤ stack.zeroKey
  tmpZero : stack.zeroKey + 32 ≤ stack.tmp ∨ stack.tmp + 64 ≤ stack.zeroKey
  tmpMac : stack.macKey + 32 ≤ stack.tmp ∨ stack.tmp + 64 ≤ stack.macKey
  packetZero : data + Packet.maxPacketLength ≤ stack.zeroKey ∨ stack.zeroKey + 32 ≤ data
  packetMac : data + Packet.maxPacketLength ≤ stack.macKey ∨ stack.macKey + 32 ≤ data
  packetTmp : data + Packet.maxPacketLength ≤ stack.tmp ∨ stack.tmp + 64 ≤ data

/-- Outside of the packet, of `macKey` and of the buffer. -/
def Stack.Elsewhere (stack : Stack) (data size x : Nat) : Prop :=
  (x < data ∨ data + size ≤ x) ∧ (x < stack.macKey ∨ stack.macKey + 32 ≤ x) ∧ (x < stack.tmp ∨ stack.tmp + 64 ≤ x)

variable (curve : Curve) (stack : Stack) (key : BitVec 384) (aesKeys : AesKeys) (data size : Nat)

/-- `setFlag`s of the octet at `ZT_PACKET_IDX_FLAGS` -/
def setOctet (change : Byte → Byte) (m : Memory) : Memory := Function.update m (data + 18) (change (m (data + 18)))

/-- The first branch of `armor`; `e` is what `enc` is before `init`. -/
def armorAes (e : GMACSIVEncryptor) (m : Memory) : Memory :=
  let payload : AesCtr.Call := ⟨data + 27, BitVec.ofNat 32 (size - 27)⟩
  let (tag, m) := e.message (AES.init aesKeys.1) (AES.init aesKeys.2) (load64 m data) (data + 27) ⟨data + 8, 11⟩
    [payload] [payload] m
  store64 tag.2 (data + 19) (store64 tag.1 data m)

/-- `Salsa20 s20(mangledKey, data + ZT_PACKET_IDX_IV)` and the key of the MAC -/
def firstBlock (m : Memory) : List (BitVec 32) × Memory :=
  let mangledKey := Armor.salsa20MangleKey key (bytesAt m data size)
  Salsa20.crypt 6 stack.tmp (Salsa20.init mangledKey (bytesAt m data 8), m) ⟨stack.zeroKey, stack.macKey, 32⟩

/-- `mac` of the payload, with `macKey` -/
def payloadMac (m : Memory) : List Byte :=
  Poly1305.compute (bytesAt m (data + 27) (size - 27)) (bytesAt m stack.macKey 32)

/-- The second branch of `armor`, without a single-pass key stream. -/
def armorPoly1305 (encryptPayload : Bool) (m : Memory) : Memory :=
  let s := firstBlock stack key data size m
  let s := if encryptPayload then Salsa20.crypt 6 stack.tmp s ⟨data + 27, data + 27, size - 27⟩ else s
  let mac := payloadMac stack data size s.2
  written (data + 19) (fun i => mac.getD i 0) 8 s.2

/-- "aesCtr.init(data, 0, ...)": the counter starts with the first twelve bytes of the packet. -/
def outerCounter (m : Memory) : AesCtr.Block := blockOf fun i => if i < 12 then m (data + i) else 0

/-- The outer layer of `armor`. -/
def armorOuter (ephemeral theirs : BitVec 256) (m : Memory) : Option (Nat × Memory) :=
  let symmetric := curve.agree ephemeral theirs
  let m := AesCtr.encrypt symmetric (outerCounter data m) (data + 19) [⟨data + 19, BitVec.ofNat 32 (size - 19)⟩] m
  if Packet.maxPacketLength < size + Armor.ephemeralPublicKeyLen then none
  else
    let pub := wordBytes Armor.ephemeralPublicKeyLen (curve.calcPubDH ephemeral)
    some (size + Armor.ephemeralPublicKeyLen,
      written (data + size) (fun i => pub.getD i 0) Armor.ephemeralPublicKeyLen m)

/-- `Packet::armor`: the size and the memory at the end. -/
def armor (e : GMACSIVEncryptor) (ephemeral : BitVec 256) (encryptPayload extended : Bool) (aesKeys : Option AesKeys)
    (identity : Identity) (m : Memory) : Option (Nat × Memory) :=
  let m := setOctet data (Armor.withExtendedArmor · extended) m
  let m :=
    match aesKeys, encryptPayload with
    | some aesKeys, true => armorAes aesKeys data size e (setOctet data (Armor.withCipher · 3) m)
    | _, _ =>
        armorPoly1305 stack key data size encryptPayload
          (setOctet data (Armor.withCipher · (if encryptPayload then 1 else 0)) m)
  if extended then armorOuter curve data size ephemeral (Armor.firstHalf identity.publicKey) m else some (size, m)

/-- The outer layer of `dearmor`. -/
def dearmorOuter (mine : BitVec 256) (m : Memory) : Memory :=
  let ephemeralKey := wordOf 256 (bytesAt m (data + (size - Armor.ephemeralPublicKeyLen)) Armor.ephemeralPublicKeyLen)
  let symmetric := curve.agree mine ephemeralKey
  AesCtr.encrypt symmetric (outerCounter data m) (data + 19)
    [⟨data + 19, BitVec.ofNat 32 (size - 19 - Armor.ephemeralPublicKeyLen)⟩] m

/-- `dearmor` for AES-GMAC-SIV: the hops are masked while the additional data is read. -/
def dearmorAes (d : GMACSIVDecryptor) (m : Memory) : Bool × Memory :=
  let k0 := AES.init aesKeys.1
  let k1 := AES.init aesKeys.2
  let tag := (load64 m data, load64 m (data + 19))
  let masked := setOctet data (· &&& 0xf8) m
  let d := (d.init k1 tag (data + 27)).aad k0 masked ⟨data + 8, 11⟩
  let restored := Function.update masked (data + 18) (m (data + 18))
  GMACSIVDecryptor.finish k0 k1 (GMACSIVDecryptor.update k1 (d, restored) ⟨data + 27, BitVec.ofNat 32 (size - 27)⟩)

/-- `dearmor` for the suites with Poly1305. -/
def dearmorPoly1305 (decrypt : Bool) (m : Memory) : Bool × Memory :=
  let s := firstBlock stack key data size m
  let mac := payloadMac stack data size s.2
  if load64 s.2 (data + 19) ≠ word64 (fun i => mac.getD i 0) then (false, s.2)
  else (true, if decrypt then (Salsa20.crypt 6 stack.tmp s ⟨data + 27, data + 27, size - 27⟩).2 else s.2)

/-- `dearmor` behind the outer layer. -/
def dearmorSuite (d : GMACSIVDecryptor) (aesKeys : Option AesKeys) (cs : Byte) (m : Memory) : Bool × Memory :=
  if cs = 3 then
    match aesKeys with
    | some aesKeys => dearmorAes aesKeys data size d m
    | none => (false, m)
  else if cs = 0 ∨ cs = 1 then dearmorPoly1305 stack key data size (cs = 1) m
  else (false, m)

/-- `Packet::dearmor`: acceptance, and the size and the memory afterwards. -/
def dearmor (d : GMACSIVDecryptor) (aesKeys : Option AesKeys) (privateKey : BitVec 512) (m : Memory) :
    Bool × Nat × Memory :=
  let cs := (m (data + 18) &&& 0x38) >>> 3
  if m (data + 18) &&& 0x80 ≠ 0 ∧ cs = 0 then
    if size < 28 + Armor.ephemeralPublicKeyLen then (false, size, m)
    else
      let inner := size - Armor.ephemeralPublicKeyLen
      let (accepted, m) := dearmorSuite stack key data inner d aesKeys cs
        (dearmorOuter curve data size (Armor.firstHalf privateKey) m)
      (accepted, inner, m)
  else
    let (accepted, m) := dearmorSuite stack key data size d aesKeys cs m
    (accepted, size, m)

end Code

section Ciphers

/-- The two words of a block as they are in memory. -/
def swapped (b : Armor.Block) : Pair := (hton64 b.1, hton64 b.2)

/-- The ciphers of this repository as primitives of packets. -/
def ciphers (curve : Curve) : Armor.Primitives where
  salsa2012 := Salsa20.stream 6
  aesCtr := fun key block => AesCtr.keystream (AES.init key).ek (blockOf (Pair.byte (swapped block)))
  aesEncrypt := fun key block => swapped ((AES.init key).encrypt (swapped block))
  aesDecrypt := fun key block => swapped ((AES.init key).decrypt (swapped block))
  gmac := fun key iv pieces =>
    swapped (digest (AES.init key) (Pair.byte (swapped (iv, 0))) (fun i => pieces.flatten.getD i 0)
      pieces.flatten.length)
  poly1305 := fun key message =>
    let mac := Poly1305.compute message key
    (wordOf 64 (mac.take 8), wordOf 64 (mac.drop 8))
  calcPubDH := curve.calcPubDH
  agree := curve.agree

theorem swapped_swapped (b : Armor.Block) : swapped (swapped b) = b := by
  rw [swapped, swapped, hton64_hton64, hton64_hton64]

/-- Only key agreement is relied on without a proof. -/
theorem ciphers_lawful {curve : Curve}
    (agree_comm : ∀ mine theirs, curve.agree mine (curve.calcPubDH theirs) = curve.agree theirs (curve.calcPubDH mine)) :
    (ciphers curve).Lawful where
  agree_comm := agree_comm
  aesDecrypt_aesEncrypt := by
    intro key block
    show swapped ((AES.init key).decrypt (swapped (swapped ((AES.init key).encrypt (swapped block))))) = block
    rw [swapped_swapped, AES.decrypt_encrypt, swapped_swapped]

end Ciphers

section Suites

variable {curve : Curve} {stack : Stack} {key : BitVec 384} {aesKeys : AesKeys} {data size : Nat} {m : Memory}

/-- What is written up to the end of the packet. -/
theorem overwrite_tail {packet bytes : List Byte} {k : Nat} (whole : k + bytes.length = packet.length) :
    overwrite packet k bytes = packet.take k ++ bytes := by
  rw [overwrite, whole, List.drop_length, List.append_nil]

theorem bytesAt_store64 {k : Nat} (inside : k + 8 ≤ size) (v : BitVec 64) :
    bytesAt (store64 v (data + k) m) data size = overwrite (bytesAt m data size) k (wordBytes 8 (hton64 v)) := by
  rw [store64, bytesAt_written inside, wordBytes_hton64]

/-- The MAC of a packet's additional data and its text. -/
theorem gmac_mac {key : BitVec 256} {iv : BitVec 64} {additional text : List Byte} (eleven : additional.length = 11) :
    ((ciphers curve).gmac key iv (Armor.aad additional ++ [text])).1 ^^^
        ((ciphers curve).gmac key iv (Armor.aad additional ++ [text])).2 =
      hton64 (mac (AES.init key) (hton64 iv) 11 (fun i => additional.getD i 0) (fun i => text.getD i 0) text.length) := by
  have partly : ¬ additional.length % 16 = 0 := by omega
  have pieces : (Armor.aad additional ++ [text]).flatten = additional ++ List.replicate 5 0 ++ text := by
    rw [Armor.aad, if_neg partly, eleven]
    simp only [List.flatten_append, List.flatten_cons, List.flatten_nil, List.append_nil]
  have front : (additional ++ List.replicate 5 (0 : Byte)).length = 16 := by
    rw [List.length_append, eleven, List.length_replicate]
  have length : (additional ++ List.replicate 5 0 ++ text).length = paddedSize 11 + text.length := by
    rw [List.length_append, front]
    rfl
  have bytes : ∀ i < paddedSize 11 + text.length, (additional ++ List.replicate 5 0 ++ text).getD i 0 =
      stream 11 (fun i => additional.getD i 0) (fun i => text.getD i 0) i := by
    intro i below
    by_cases first : i < 11
    · rw [stream, if_pos first, List.getD_append _ _ _ _ (by omega), List.getD_append _ _ _ _ (by omega)]
    · by_cases padding : i < 16
      · have zero : i < paddedSize 11 := padding
        have short : i - additional.length < 5 := by omega
        rw [stream, if_neg first, if_pos zero, List.getD_append _ _ _ _ (by omega),
          List.getD_append_right _ _ _ _ (by omega), List.getD_replicate _ short]
      · have behind : ¬ i < paddedSize 11 := padding
        rw [stream, if_neg first, if_neg behind, List.getD_append_right _ _ _ _ (by omega), front]
        rfl
  have zero : hton64 0 = 0 := by decide
  have vector : swapped (iv, 0) = (hton64 iv, 0) := Prod.ext rfl zero
  have tag : (ciphers curve).gmac key iv (Armor.aad additional ++ [text]) =
      swapped (digest (AES.init key) (Pair.byte (hton64 iv, 0))
        (stream 11 (fun i => additional.getD i 0) fun i => text.getD i 0) (paddedSize 11 + text.length)) := by
    show swapped (digest _ _ (fun i => (Armor.aad additional ++ [text]).flatten.getD i 0) _) = _
    rw [pieces, length, vector, digest_congr bytes]
  rw [tag]
  exact (hton64_xor _ _).symm

/-- The key stream behind a tag. -/
theorem aesCtr_nonce (key : BitVec 256) (tag : Pair) :
    (ciphers curve).aesCtr key (Armor.ctrStart (swapped tag)) = AesCtr.keystream (AES.init key).ek (nonce tag) := by
  have start : swapped (Armor.ctrStart (swapped tag)) = (tag.1, tag.2 &&& counterMask) := by
    show (hton64 (hton64 tag.1), hton64 (hton64 tag.2 &&& 0xffffffff7fffffff)) = _
    rw [hton64_and, hton64_hton64, hton64_hton64]
    rfl
  show AesCtr.keystream (AES.init key).ek (blockOf (Pair.byte (swapped (Armor.ctrStart (swapped tag))))) = _
  rw [start]
  rfl

/-- The payload as an input of `AES`. -/
theorem payload_total (data : Nat) {n : Nat} (short : n < 2 ^ 31) : AesCtr.total [⟨data, BitVec.ofNat 32 n⟩] = n := by
  have length : (BitVec.ofNat 32 n).toNat = n := Nat.mod_eq_of_lt (by omega)
  rw [AesCtr.total_cons, length]
  rfl

theorem payload_byte {n i : Nat} (short : n < 2 ^ 31) (inside : i < n) :
    AesCtr.inputAt m [⟨data, BitVec.ofNat 32 n⟩] i = m (data + i) := by
  have length : (BitVec.ofNat 32 n).toNat = n := Nat.mod_eq_of_lt (by omega)
  rw [AesCtr.inputAt, length, if_pos inside]

theorem armorAes_refines (e : GMACSIVEncryptor) (long : 27 ≤ size) (short : size < 2 ^ 31) :
    bytesAt (armorAes aesKeys data size e m) data size =
      Armor.armorAes (ciphers curve) aesKeys (bytesAt m data size) := by
  have total := payload_total (data + 27) (show size - 27 < 2 ^ 31 by omega)
  have sealed := @encryptor_message (AES.init aesKeys.1) (AES.init aesKeys.2) (load64 m data) (data + 27) m
    ⟨data + 8, 11⟩ e [⟨data + 27, BitVec.ofNat 32 (size - 27)⟩] [⟨data + 27, BitVec.ofNat 32 (size - 27)⟩]
    (by omega) ⟨rfl, fun _ _ => rfl⟩ ⟨Or.inl rfl, trivial⟩
  dsimp only at sealed
  rw [total] at sealed
  generalize code : (AES.init aesKeys.2).encrypt _ = tag at sealed
  have additional : Packet.fieldAt (bytesAt m data size) 8 11 = bytesAt m (data + 8) 11 := fieldAt_bytesAt (by omega)
  have text : (bytesAt m data size).drop 27 = bytesAt m (data + 27) (size - 27) := drop_bytesAt long
  have packetId : hton64 (Packet.packetId (bytesAt m data size)) = load64 m data := by
    rw [Packet.packetId, fieldAt_bytesAt (by omega), Nat.add_zero, wordOf_bytesAt, hton64_hton64]
  have macs : mac (AES.init aesKeys.1) (load64 m data) 11 (fun i => (bytesAt m (data + 8) 11).getD i 0)
      (fun i => (bytesAt m (data + 27) (size - 27)).getD i 0) (size - 27) =
      mac (AES.init aesKeys.1) (load64 m data) 11 (fun i => m (data + 8 + i))
        (AesCtr.inputAt m [⟨data + 27, BitVec.ofNat 32 (size - 27)⟩]) (size - 27) := by
    apply mac_congr
    · intro i inside
      exact getD_bytesAt inside
    · intro i inside
      rw [getD_bytesAt inside, payload_byte (by omega) inside]
  have lawful : Armor.gmacSivEncrypt (ciphers curve) aesKeys (Packet.packetId (bytesAt m data size))
      (bytesAt m (data + 8) 11) (bytesAt m (data + 27) (size - 27)) =
      (swapped tag, (List.range (size - 27)).map fun i =>
        m (data + 27 + i) ^^^ AesCtr.keystream (AES.init aesKeys.2).ek (nonce tag) i) := by
    have tagged : (ciphers curve).aesEncrypt aesKeys.2 (Packet.packetId (bytesAt m data size),
        hton64 (mac (AES.init aesKeys.1) (load64 m data) 11 (fun i => m (data + 8 + i))
          (AesCtr.inputAt m [⟨data + 27, BitVec.ofNat 32 (size - 27)⟩]) (size - 27))) = swapped tag := by
      rw [← code, ← packetId]
      show swapped ((AES.init aesKeys.2).encrypt (hton64 _, hton64 (hton64 _))) = _
      rw [hton64_hton64]
      rfl
    rw [Armor.gmacSivEncrypt, gmac_mac (length_bytesAt _ _ _), packetId, length_bytesAt, macs, tagged, aesCtr_nonce,
      xorStream_bytesAt]
  have payload : bytesAt (written (data + 27)
      (fun i => AesCtr.inputAt m [⟨data + 27, BitVec.ofNat 32 (size - 27)⟩] i ^^^
      AesCtr.keystream (AES.init aesKeys.2).ek (nonce tag) i) (size - 27) m) data size =
      (bytesAt m data size).take 27 ++ (List.range (size - 27)).map fun i =>
        m (data + 27 + i) ^^^ AesCtr.keystream (AES.init aesKeys.2).ek (nonce tag) i := by
    rw [bytesAt_written (by omega), overwrite_tail (by rw [List.length_map, List.length_range, length_bytesAt]; omega)]
    congr 1
    apply List.map_congr_left
    intro i member
    rw [payload_byte (by omega) (List.mem_range.mp member)]
  have first := @bytesAt_store64 data size (written (data + 27) (fun i =>
    AesCtr.inputAt m [⟨data + 27, BitVec.ofNat 32 (size - 27)⟩] i ^^^
      AesCtr.keystream (AES.init aesKeys.2).ek (nonce tag) i) (size - 27) m) 0 (by omega) tag.1
  rw [Nat.add_zero, payload] at first
  rw [armorAes]
  dsimp only
  rw [sealed, Armor.armorAes, additional, text, lawful]
  dsimp only
  rw [bytesAt_store64 (by omega), first]
  rfl

/-- The first block of the key stream: its first half is the key of the MAC, and the packet is as it was. -/
theorem firstBlock_spec (placed : stack.Placed data m) (long : 27 ≤ size) :
    let keyStream := Salsa20.stream 6 (Armor.salsa20MangleKey key (bytesAt m data size))
      (Packet.fieldAt (bytesAt m data size) 0 8)
    (firstBlock stack key data size m).1 = Armor.salsaState (Armor.salsa20MangleKey key (bytesAt m data size))
        (Packet.fieldAt (bytesAt m data size) 0 8) 1 ∧
      Salsa20.Alike stack.tmp (firstBlock stack key data size m).2 (written stack.macKey keyStream 32 m) := by
  intro keyStream
  have vector : Packet.fieldAt (bytesAt m data size) 0 8 = bytesAt m data 8 := by
    rw [fieldAt_bytesAt (by omega), Nat.add_zero]
  have apart : Salsa20.Call.Placed ⟨stack.zeroKey, stack.macKey, 32⟩ stack.tmp :=
    ⟨Or.inr placed.keys, placed.tmpZero, placed.tmpMac⟩
  obtain ⟨state, alike⟩ := @Salsa20.crypt_spec 6 stack.tmp
    (Salsa20.init (Armor.salsa20MangleKey key (bytesAt m data size)) (Packet.fieldAt (bytesAt m data size) 0 8)) m _ apart
  rw [Salsa20.init, Salsa20.nextBlock_iterate] at state
  dsimp only [Nat.reduceAdd, Nat.reduceDiv] at state
  rw [firstBlock, ← vector, Salsa20.init]
  refine ⟨state, ?_⟩
  have zeros : written stack.macKey (fun i => m (stack.zeroKey + i) ^^^ Salsa20.streamByte 6
      (Salsa20.init (Armor.salsa20MangleKey key (bytesAt m data size)) (Packet.fieldAt (bytesAt m data size) 0 8)) i) 32 m =
      written stack.macKey keyStream 32 m := by
    apply written_congr
    intro i below
    rw [placed.zeros i below]
    exact BitVec.zero_xor
  rw [← zeros]
  exact alike

/-- The body of a packet under a suite with Poly1305. -/
def bodyOf (keyStream : Nat → Byte) (encrypt : Bool) (packet : List Byte) : List Byte :=
  if encrypt then xorStream (fun i => keyStream (64 + i)) (packet.drop 27) else packet.drop 27

/-- The packet and the key once the payload is encrypted, or decrypted, or left. -/
theorem payload_spec (placed : stack.Placed data m) (fits : size ≤ Packet.maxPacketLength) (long : 27 ≤ size)
    (encrypt : Bool) :
    let packet := bytesAt m data size
    let keyStream := Salsa20.stream 6 (Armor.salsa20MangleKey key packet) (Packet.fieldAt packet 0 8)
    let s := firstBlock stack key data size m
    let s' := if encrypt then Salsa20.crypt 6 stack.tmp s ⟨data + 27, data + 27, size - 27⟩ else s
    bytesAt s.2 data size = packet ∧ bytesAt s'.2 data size = packet.take 27 ++ bodyOf keyStream encrypt packet ∧
      bytesAt s'.2 stack.macKey 32 = streamBytes keyStream 32 ∧
      ∀ x, stack.Elsewhere data size x → s'.2 x = m x := by
  intro packet keyStream s s'
  obtain ⟨state, alike⟩ := @firstBlock_spec stack key data size m placed long
  have packetMac := placed.packetMac
  have packetTmp := placed.packetTmp
  have tmpMac := placed.tmpMac
  have kept : ∀ x, (x < stack.macKey ∨ stack.macKey + 32 ≤ x) ∧ (x < stack.tmp ∨ stack.tmp + 64 ≤ x) →
      s.2 x = m x := by
    intro x outside
    exact (alike x outside.2).trans (written_outside outside.1)
  have before : bytesAt s.2 data size = packet := bytesAt_congr fun i below => kept _ ⟨by omega, by omega⟩
  have macKey (i : Nat) (below : i < 32) : s.2 (stack.macKey + i) = keyStream i :=
    (alike _ (by omega)).trans (written_inside below)
  refine ⟨before, ?_⟩
  cases encrypt with
  | false =>
      refine ⟨?_, List.map_congr_left fun i member => macKey i (List.mem_range.mp member),
        fun x outside => kept x outside.2⟩
      show bytesAt s.2 data size = packet.take 27 ++ packet.drop 27
      rw [before, List.take_append_drop]
  | true =>
      have apart : Salsa20.Call.Placed ⟨data + 27, data + 27, size - 27⟩ stack.tmp :=
        ⟨Or.inl rfl, by dsimp only; omega, by dsimp only; omega⟩
      have crypted := (@Salsa20.crypt_spec 6 stack.tmp s.1 s.2 _ apart).2
      have turned : ∀ x, x < stack.tmp ∨ stack.tmp + 64 ≤ x →
          s'.2 x = written (data + 27) (fun i => m (data + 27 + i) ^^^ keyStream (64 + i)) (size - 27) s.2 x := by
        intro x outside
        refine (crypted x outside).trans ?_
        dsimp only
        have same : ∀ i < size - 27, s.2 (data + 27 + i) ^^^ Salsa20.streamByte 6 s.1 i =
            m (data + 27 + i) ^^^ keyStream (64 + i) := by
          intro i below
          rw [kept _ ⟨by omega, by omega⟩, state, Salsa20.stream_block]
        rw [written_congr same]
      refine ⟨?_, ?_, ?_⟩
      · have bytes : bytesAt s'.2 data size =
            bytesAt (written (data + 27) (fun i => m (data + 27 + i) ^^^ keyStream (64 + i)) (size - 27) s.2) data size :=
          bytesAt_congr fun i below => turned _ (by omega)
        rw [bytes, bytesAt_written (by omega), before, overwrite_tail (by
          rw [List.length_map, List.length_range, length_bytesAt]; omega), bodyOf, if_pos rfl, drop_bytesAt long,
          xorStream_bytesAt]
      · apply List.map_congr_left
        intro i member
        have below := List.mem_range.mp member
        rw [turned _ (by omega), written_outside (by omega), macKey i below]
      · intro x outside
        have left := outside.1
        rw [turned x outside.2.2, written_outside (by omega), kept x outside.2]

/-- The MAC as a word of the packet. -/
theorem take_mac {mac : List Byte} (long : 8 ≤ mac.length) :
    (List.range 8).map (fun i => mac.getD i 0) = wordBytes 8 (wordOf 64 (mac.take 8)) := by
  have first : (List.range 8).map (fun i => mac.getD i 0) = mac.take 8 := by
    apply List.ext_getElem
    · rw [List.length_map, List.length_range, List.length_take]
      omega
    · intro i below also
      rw [List.getElem_map, List.getElem_range, List.getElem_take, List.getD_eq_getElem _ _ (by
        rw [List.length_take] at also
        omega)]
  have eight : (mac.take 8).length = 8 := by
    rw [List.length_take]
    omega
  have back := wordBytes_wordOf (mac.take 8)
  rw [eight] at back
  rw [first]
  exact back.symm

theorem armorPoly1305_refines (placed : stack.Placed data m) (fits : size ≤ Packet.maxPacketLength) (long : 27 ≤ size)
    (encrypt : Bool) :
    bytesAt (armorPoly1305 stack key data size encrypt m) data size =
        Armor.armorPoly1305 (ciphers curve) false key encrypt (bytesAt m data size) ∧
      ∀ x, stack.Elsewhere data size x → armorPoly1305 stack key data size encrypt m x = m x := by
  obtain ⟨-, packet, macKey, elsewhere⟩ := @payload_spec stack key data size m placed fits long encrypt
  have body : (bodyOf (Salsa20.stream 6 (Armor.salsa20MangleKey key (bytesAt m data size))
      (Packet.fieldAt (bytesAt m data size) 0 8)) encrypt (bytesAt m data size)).length = size - 27 := by
    cases encrypt with
    | false => rw [bodyOf, if_neg Bool.false_ne_true, List.length_drop, length_bytesAt]
    | true => rw [bodyOf, if_pos rfl, length_xorStream, List.length_drop, length_bytesAt]
  rw [armorPoly1305]
  generalize (if encrypt = true then Salsa20.crypt 6 stack.tmp (firstBlock stack key data size m)
    ⟨data + 27, data + 27, size - 27⟩ else firstBlock stack key data size m) = s at packet macKey elsewhere ⊢
  constructor
  · have payload := congrArg (List.drop 27) packet
    rw [drop_bytesAt long, List.drop_left' (by rw [List.length_take, length_bytesAt]; omega)] at payload
    rw [bytesAt_written (by omega), packet, take_mac (by rw [payloadMac, Poly1305.length_compute]; decide), payloadMac,
      payload, macKey]
    rw [Armor.armorPoly1305]
    dsimp only
    rw [Armor.crypt12_zeros]
    cases encrypt <;> rfl
  · intro x outside
    have left := outside.1
    rw [written_outside (by omega), elsewhere x outside]

/-- The comparison of the MACs. -/
theorem authentic_iff {mac : List Byte} (long : 8 ≤ mac.length) (a : Nat) :
    load64 m a = word64 (fun i => mac.getD i 0) ↔ wordOf 64 (bytesAt m a 8) = wordOf 64 (mac.take 8) := by
  have word : wordOf 64 (mac.take 8) = hton64 (word64 fun i => mac.getD i 0) := by
    have bytes : wordBytes 8 (wordOf 64 (mac.take 8)) = wordBytes 8 (hton64 (word64 fun i => mac.getD i 0)) := by
      rw [← take_mac long, wordBytes_hton64]
      apply List.map_congr_left
      intro i member
      rw [word64_byte _ (List.mem_range.mp member)]
    rw [← wordOf_wordBytes 8 (wordOf 64 (mac.take 8)) (by decide), bytes, wordOf_wordBytes 8 _ (by decide)]
  rw [wordOf_bytesAt, word]
  constructor
  · intro same
    rw [same]
  · intro same
    rw [← hton64_hton64 (load64 m a), same, hton64_hton64]

theorem dearmorPoly1305_refines (placed : stack.Placed data m) (fits : size ≤ Packet.maxPacketLength)
    (long : 27 ≤ size) (decrypt : Bool) :
    ((dearmorPoly1305 stack key data size decrypt m).1,
        bytesAt (dearmorPoly1305 stack key data size decrypt m).2 data size) =
        Armor.dearmorPoly1305 (ciphers curve) false key decrypt (bytesAt m data size) ∧
      ∀ x, stack.Elsewhere data size x → (dearmorPoly1305 stack key data size decrypt m).2 x = m x := by
  obtain ⟨before, -, macKey, untouched⟩ := @payload_spec stack key data size m placed fits long false
  obtain ⟨-, packet, -, elsewhere⟩ := @payload_spec stack key data size m placed fits long decrypt
  simp only [Bool.false_eq_true, if_false] at macKey untouched
  have mac : payloadMac stack data size (firstBlock stack key data size m).2 =
      Poly1305.compute ((bytesAt m data size).drop 27) (streamBytes (Salsa20.stream 6
        (Armor.salsa20MangleKey key (bytesAt m data size)) (Packet.fieldAt (bytesAt m data size) 0 8)) 32) := by
    rw [payloadMac, macKey, ← drop_bytesAt long, before]
  have field : Packet.trustedPathId (bytesAt m data size) =
      wordOf 64 (bytesAt (firstBlock stack key data size m).2 (data + 19) 8) := by
    rw [Packet.trustedPathId, ← before, fieldAt_bytesAt (by omega)]
  have compared := @authentic_iff (firstBlock stack key data size m).2
    (payloadMac stack data size (firstBlock stack key data size m).2)
    (by rw [payloadMac, Poly1305.length_compute]; decide) (data + 19)
  rw [← field, mac] at compared
  rw [dearmorPoly1305, Armor.dearmorPoly1305]
  dsimp only
  rw [Armor.crypt12_zeros, mac, if_neg Bool.false_ne_true]
  by_cases accepted : load64 (firstBlock stack key data size m).2 (data + 19) =
      word64 fun i => (Poly1305.compute ((bytesAt m data size).drop 27) (streamBytes (Salsa20.stream 6
        (Armor.salsa20MangleKey key (bytesAt m data size)) (Packet.fieldAt (bytesAt m data size) 0 8)) 32)).getD i 0
  · have authentic : Packet.trustedPathId (bytesAt m data size) = ((ciphers curve).poly1305
        (streamBytes ((ciphers curve).salsa2012 (Armor.salsa20MangleKey key (bytesAt m data size))
          (Packet.fieldAt (bytesAt m data size) 0 8)) 32) ((bytesAt m data size).drop 27)).1 := compared.mp accepted
    dsimp only
    rw [if_neg (not_not.mpr accepted), if_neg (not_not.mpr authentic)]
    cases decrypt with
    | false => exact ⟨Prod.ext rfl packet, elsewhere⟩
    | true => exact ⟨Prod.ext rfl packet, elsewhere⟩
  · have forged : ¬ Packet.trustedPathId (bytesAt m data size) = ((ciphers curve).poly1305
        (streamBytes ((ciphers curve).salsa2012 (Armor.salsa20MangleKey key (bytesAt m data size))
          (Packet.fieldAt (bytesAt m data size) 0 8)) 32) ((bytesAt m data size).drop 27)).1 :=
      fun same => accepted (compared.mpr same)
    dsimp only
    rw [if_pos accepted, if_pos forged]
    exact ⟨Prod.ext rfl before, untouched⟩

/-- What the decryptor does to the payload, and what it compares. -/
theorem dearmorAes_spec (d : GMACSIVDecryptor) (short : size < 2 ^ 31) :
    let tag := (load64 m data, load64 m (data + 19))
    let text := fun i => m (data + 27 + i) ^^^ AesCtr.keystream (AES.init aesKeys.2).ek (nonce tag) i
    let ivMac := (AES.init aesKeys.2).decrypt tag
    dearmorAes aesKeys data size d m =
      (mac (AES.init aesKeys.1) ivMac.1 11 (fun i => setOctet data (· &&& 0xf8) m (data + 8 + i)) text (size - 27) ==
          ivMac.2,
        written (data + 27) text (size - 27) m) := by
  intro tag text ivMac
  have total := payload_total (data + 27) (show size - 27 < 2 ^ 31 by omega)
  have restored : Function.update (setOctet data (· &&& 0xf8) m) (data + 18) (m (data + 18)) = m := by
    rw [setOctet, Function.update_idem, Function.update_eq_self]
  have padded := @aad_spec (AES.init aesKeys.1).h (Pair.byte (ivMac.1, 0))
    (fun i => setOctet data (· &&& 0xf8) m (data + 8 + i)) text (setOctet data (· &&& 0xf8) m) _ ⟨data + 8, 11⟩
    (Absorbed.start d.gmac) fun i inside => rfl
  have decrypted : AesCtr.finish (AES.init aesKeys.2).ek
      (AesCtr.crypt (AES.init aesKeys.2).ek (AesCtr.CTR.init (nonce tag) (data + 27), m)
        ⟨data + 27, BitVec.ofNat 32 (size - 27)⟩) = written (data + 27) text (size - 27) m := by
    have ran := @AesCtr.finish_run (AES.init aesKeys.2).ek (nonce tag) m (data + 27)
      [⟨data + 27, BitVec.ofNat 32 (size - 27)⟩] (by omega) ⟨Or.inl rfl, trivial⟩
    rw [total] at ran
    refine ran.trans (written_congr fun i below => ?_)
    rw [payload_byte (by omega) below]
  have length : (0 + BitVec.ofNat 32 (size - 27)).toNat = size - 27 := by
    have zero : (0 : BitVec 32) + BitVec.ofNat 32 (size - 27) = BitVec.ofNat 32 (size - 27) := BitVec.zero_add _
    rw [zero]
    exact Nat.mod_eq_of_lt (by omega)
  have absorbed := @update_spec _ _ _ (written (data + 27) text (size - 27) m) _ _
    ⟨data + 27, 0 + BitVec.ofNat 32 (size - 27)⟩ padded fun i inside => by
      rw [length] at inside
      rw [written_inside inside]
      exact (stream_text _ _ _ _).symm
  have finished := finish_digest absorbed
  rw [length] at finished
  rw [dearmorAes, restored]
  simp only [GMACSIVDecryptor.init, GMACSIVDecryptor.aad, GMACSIVDecryptor.update, GMACSIVDecryptor.finish]
  rw [decrypted, finished]
  rfl

theorem armorAes_elsewhere (e : GMACSIVEncryptor) (long : 27 ≤ size) (short : size < 2 ^ 31) {x : Nat}
    (outside : x < data ∨ data + size ≤ x) : armorAes aesKeys data size e m x = m x := by
  have total := payload_total (data + 27) (show size - 27 < 2 ^ 31 by omega)
  have sealed := @encryptor_message (AES.init aesKeys.1) (AES.init aesKeys.2) (load64 m data) (data + 27) m
    ⟨data + 8, 11⟩ e [⟨data + 27, BitVec.ofNat 32 (size - 27)⟩] [⟨data + 27, BitVec.ofNat 32 (size - 27)⟩]
    (by omega) ⟨rfl, fun _ _ => rfl⟩ ⟨Or.inl rfl, trivial⟩
  rw [total] at sealed
  rw [armorAes]
  dsimp only at sealed ⊢
  rw [sealed]
  dsimp only
  rw [store64, store64, written_outside (by omega), written_outside (by omega), written_outside (by omega)]

/-- The plaintext of a packet that arrived. -/
theorem dearmorAes_refines (d : GMACSIVDecryptor) (long : 27 ≤ size) (short : size < 2 ^ 31) :
    ((dearmorAes aesKeys data size d m).1, bytesAt (dearmorAes aesKeys data size d m).2 data size) =
        Armor.dearmorAes (ciphers curve) aesKeys (bytesAt m data size) ∧
      ∀ x, x < data ∨ data + size ≤ x → (dearmorAes aesKeys data size d m).2 x = m x := by
  have opened := @dearmorAes_spec aesKeys data size m d short
  dsimp only at opened
  generalize code : (load64 m data, load64 m (data + 19)) = tag at opened
  have field : (Packet.packetId (bytesAt m data size), Packet.trustedPathId (bytesAt m data size)) = swapped tag := by
    rw [Packet.packetId, Packet.trustedPathId, fieldAt_bytesAt (by omega), fieldAt_bytesAt (by omega), Nat.add_zero,
      wordOf_bytesAt, wordOf_bytesAt, ← code]
    rfl
  have masked : (bytesAt m data size).set 18 (Packet.flags (bytesAt m data size) &&& 0xf8) =
      bytesAt (setOctet data (· &&& 0xf8) m) data size := by
    rw [setOctet, bytesAt_set, Packet.flags, byteAt_bytesAt (by omega)]
  have additional : Packet.fieldAt (bytesAt (setOctet data (· &&& 0xf8) m) data size) 8 11 =
      bytesAt (setOctet data (· &&& 0xf8) m) (data + 8) 11 := fieldAt_bytesAt (by omega)
  have text : xorStream ((ciphers curve).aesCtr aesKeys.2 (Armor.ctrStart (swapped tag))) ((bytesAt m data size).drop 27) =
      (List.range (size - 27)).map fun i =>
        m (data + 27 + i) ^^^ AesCtr.keystream (AES.init aesKeys.2).ek (nonce tag) i := by
    rw [aesCtr_nonce, drop_bytesAt long, xorStream_bytesAt]
  have length : ((List.range (size - 27)).map fun i =>
      m (data + 27 + i) ^^^ AesCtr.keystream (AES.init aesKeys.2).ek (nonce tag) i).length = size - 27 := by
    rw [List.length_map, List.length_range]
  have ivMac : (ciphers curve).aesDecrypt aesKeys.2 (swapped tag) = swapped ((AES.init aesKeys.2).decrypt tag) := by
    show swapped ((AES.init aesKeys.2).decrypt (swapped (swapped tag))) = _
    rw [swapped_swapped]
  have macs : mac (AES.init aesKeys.1) ((AES.init aesKeys.2).decrypt tag).1 11
      (fun i => (bytesAt (setOctet data (· &&& 0xf8) m) (data + 8) 11).getD i 0)
      (fun i => ((List.range (size - 27)).map fun i =>
        m (data + 27 + i) ^^^ AesCtr.keystream (AES.init aesKeys.2).ek (nonce tag) i).getD i 0) (size - 27) =
      mac (AES.init aesKeys.1) ((AES.init aesKeys.2).decrypt tag).1 11
        (fun i => setOctet data (· &&& 0xf8) m (data + 8 + i))
        (fun i => m (data + 27 + i) ^^^ AesCtr.keystream (AES.init aesKeys.2).ek (nonce tag) i) (size - 27) := by
    apply mac_congr
    · intro i inside
      exact getD_bytesAt inside
    · intro i inside
      rw [List.getD_eq_getElem?_getD, List.getElem?_map, List.getElem?_range inside]
      rfl
  have payload : bytesAt (written (data + 27) (fun i =>
      m (data + 27 + i) ^^^ AesCtr.keystream (AES.init aesKeys.2).ek (nonce tag) i) (size - 27) m) data size =
      (bytesAt m data size).take 27 ++ (List.range (size - 27)).map fun i =>
        m (data + 27 + i) ^^^ AesCtr.keystream (AES.init aesKeys.2).ek (nonce tag) i := by
    rw [bytesAt_written (by omega), overwrite_tail (by rw [length, length_bytesAt]; omega)]
  have injective (v w : BitVec 64) : hton64 v = hton64 w ↔ v = w := by
    constructor
    · intro same
      rw [← hton64_hton64 v, same, hton64_hton64]
    · intro same
      rw [same]
  constructor
  · rw [opened, Armor.dearmorAes]
    dsimp only
    rw [field, masked, additional, Armor.gmacSivDecrypt]
    dsimp only
    rw [text, ivMac, gmac_mac (length_bytesAt _ _ _), length, payload]
    have vector : hton64 (swapped ((AES.init aesKeys.2).decrypt tag)).1 = ((AES.init aesKeys.2).decrypt tag).1 :=
      hton64_hton64 _
    rw [vector, macs]
    congr 1
    rw [Bool.eq_iff_iff, beq_iff_eq, decide_eq_true_iff]
    exact (injective _ _).symm
  · intro x outside
    rw [opened]
    dsimp only
    rw [written_outside (by omega)]

end Suites

section Outer

variable {curve : Curve} {stack : Stack} {key : BitVec 384} {data size : Nat} {m : Memory}

theorem wordOf_zeros {bytes : List Byte} (four : bytes.length = 4) :
    wordOf 32 bytes ++ (0 : BitVec 32) = wordOf 64 (bytes ++ [0, 0, 0, 0]) := by
  have small := bigEndianValue_lt bytes
  rw [four] at small
  have power : 256 ^ 4 = 2 ^ 32 := by decide
  have longer : bigEndianValue (bytes ++ [0, 0, 0, 0]) = bigEndianValue bytes * 2 ^ 32 := by
    have zeros : bigEndianValue [0, 0, 0, 0] = 0 := by decide
    rw [bigEndianValue_append, zeros, Nat.add_zero, ← power]
    rfl
  rw [power] at small
  apply BitVec.eq_of_toNat_eq
  rw [BitVec.toNat_append, wordOf, wordOf, BitVec.toNat_ofNat, BitVec.toNat_ofNat, longer, Nat.shiftLeft_eq,
    Nat.mod_eq_of_lt small, Nat.mod_eq_of_lt (by omega)]
  exact Nat.or_zero _

/-- The counter of the outer layer is the start of the packet. -/
theorem outerStart_counter (long : 27 ≤ size) :
    blockOf (Pair.byte (swapped (Armor.outerStart (bytesAt m data size)))) = outerCounter data m := by
  let padded : Memory := fun x => if x < data + 12 then m x else 0
  have first : hton64 (Packet.packetId (bytesAt m data size)) = load64 m data := by
    rw [Packet.packetId, fieldAt_bytesAt (by omega), Nat.add_zero, wordOf_bytesAt, hton64_hton64]
  have four : Packet.fieldAt (bytesAt m data size) 8 4 ++ [0, 0, 0, 0] = bytesAt padded (data + 8) 8 := by
    have front : bytesAt padded (data + 8) 4 = bytesAt m (data + 8) 4 :=
      bytesAt_congr fun i below => if_pos (by omega)
    have back : bytesAt padded (data + 8 + 4) 4 = [0, 0, 0, 0] := by
      have zero (i : Nat) : padded (data + 8 + 4 + i) = 0 := if_neg (by omega)
      simp only [bytesAt, zero]
      rfl
    rw [fieldAt_bytesAt (by omega), bytesAt_add padded (data + 8) 4 4, front, back]
  have second : hton64 (wordOf 32 (Packet.fieldAt (bytesAt m data size) 8 4) ++ (0 : BitVec 32)) =
      load64 padded (data + 8) := by
    rw [wordOf_zeros (by rw [fieldAt_bytesAt (by omega), length_bytesAt]), four, wordOf_bytesAt, hton64_hton64]
  have words : swapped (Armor.outerStart (bytesAt m data size)) = (load64 m data, load64 padded (data + 8)) :=
    Prod.ext first second
  rw [words, outerCounter]
  apply blockOf_congr
  intro i below
  by_cases low : i < 8
  · rw [Pair.byte, if_pos low, if_pos (by omega)]
    dsimp only
    rw [load64, word64_byte _ low]
  · have place : data + 8 + (i - 8) = data + i := by omega
    rw [Pair.byte, if_neg low]
    dsimp only
    rw [load64, word64_byte _ (by omega), place]
    by_cases known : i < 12
    · rw [if_pos known]
      exact if_pos (by omega)
    · rw [if_neg known]
      exact if_neg (by omega)

/-- The outer layer is put on, and taken off, where the packet is. -/
theorem outer_written (symmetric : BitVec 256) {n : Nat} (long : 27 ≤ size) (short : n < 2 ^ 31) :
    AesCtr.encrypt symmetric (outerCounter data m) (data + 19) [⟨data + 19, BitVec.ofNat 32 n⟩] m =
      written (data + 19) (fun i => m (data + 19 + i) ^^^
        (ciphers curve).aesCtr symmetric (Armor.outerStart (bytesAt m data size)) i) n m := by
  have total := payload_total (data + 19) short
  have ran := @AesCtr.finish_run (AesCtr.p_initSW symmetric) (outerCounter data m) m (data + 19)
    [⟨data + 19, BitVec.ofNat 32 n⟩] (by omega) ⟨Or.inl rfl, trivial⟩
  rw [total] at ran
  rw [AesCtr.encrypt, ran]
  apply written_congr
  intro i below
  show _ = _ ^^^ AesCtr.keystream (AES.init symmetric).ek _ i
  rw [payload_byte short below, AES.init_ek, outerStart_counter long]

theorem armorOuter_refines (ephemeral theirs : BitVec 256) (long : 27 ≤ size) (fits : size ≤ Packet.maxPacketLength) :
    (armorOuter curve data size ephemeral theirs m).map (fun r => bytesAt r.2 data r.1) =
        Armor.armorOuter (ciphers curve) ephemeral theirs (bytesAt m data size) ∧
      ∀ r, armorOuter curve data size ephemeral theirs m = some r →
        ∀ x, x < data ∨ data + r.1 ≤ x → r.2 x = m x := by
  have most : Packet.maxPacketLength < 2 ^ 31 := by decide
  have layered := @outer_written curve data size m (curve.agree ephemeral theirs) (size - 19) long (by omega)
  have size' : ((bytesAt m data size).take 19 ++ xorStream ((ciphers curve).aesCtr ((ciphers curve).agree ephemeral theirs)
      (Armor.outerStart (bytesAt m data size))) ((bytesAt m data size).drop 19)).length = size := by
    rw [List.length_append, length_xorStream, List.length_take, List.length_drop, length_bytesAt]
    omega
  rw [armorOuter, Armor.armorOuter]
  dsimp only
  rw [layered, size']
  by_cases full : Packet.maxPacketLength < size + Armor.ephemeralPublicKeyLen
  · rw [if_pos full, if_pos full]
    exact ⟨rfl, fun r none => nomatch none⟩
  · rw [if_neg full, if_neg full]
    constructor
    · have inner : bytesAt (written (data + 19) (fun i => m (data + 19 + i) ^^^ (ciphers curve).aesCtr
          (curve.agree ephemeral theirs) (Armor.outerStart (bytesAt m data size)) i) (size - 19) m) data size =
          (bytesAt m data size).take 19 ++ xorStream ((ciphers curve).aesCtr (curve.agree ephemeral theirs)
            (Armor.outerStart (bytesAt m data size))) ((bytesAt m data size).drop 19) := by
        rw [bytesAt_written (by omega), overwrite_tail (by
          rw [List.length_map, List.length_range, length_bytesAt]; omega), drop_bytesAt (by omega), xorStream_bytesAt]
      have ephemeralKey (m' : Memory) : bytesAt (written (data + size) (fun i =>
          (wordBytes Armor.ephemeralPublicKeyLen (curve.calcPubDH ephemeral)).getD i 0) Armor.ephemeralPublicKeyLen m')
          (data + size) Armor.ephemeralPublicKeyLen =
          wordBytes Armor.ephemeralPublicKeyLen (curve.calcPubDH ephemeral) :=
        bytesAt_written_self (wordBytes_length _ _)
      have before (bytes : Nat → Byte) (m' : Memory) : bytesAt (written (data + size) bytes
          Armor.ephemeralPublicKeyLen m') data size = bytesAt m' data size :=
        bytesAt_congr fun i below => written_outside (by omega)
      rw [Option.map_some, bytesAt_add, ephemeralKey, before, inner]
      rfl
    · rintro r ⟨⟩ x outside
      dsimp only at outside ⊢
      rw [written_outside (by omega), written_outside (by omega)]

theorem dearmorOuter_refines (mine : BitVec 256) (long : 28 + Armor.ephemeralPublicKeyLen ≤ size)
    (short : size < 2 ^ 31) :
    bytesAt (dearmorOuter curve data size mine m) data (size - Armor.ephemeralPublicKeyLen) =
        Armor.dearmorOuter (ciphers curve) mine (bytesAt m data size) ∧
      ∀ x, x < data ∨ data + size ≤ x → dearmorOuter curve data size mine m x = m x := by
  have length : Armor.ephemeralPublicKeyLen = 32 := rfl
  have layered (symmetric : BitVec 256) := @outer_written curve data size m symmetric
    (size - 19 - Armor.ephemeralPublicKeyLen) (by omega) (by omega)
  have ephemeralKey : (bytesAt m data size).drop ((bytesAt m data size).length - Armor.ephemeralPublicKeyLen) =
      bytesAt m (data + (size - Armor.ephemeralPublicKeyLen)) Armor.ephemeralPublicKeyLen := by
    have rest : size - (size - Armor.ephemeralPublicKeyLen) = Armor.ephemeralPublicKeyLen := by omega
    rw [length_bytesAt, drop_bytesAt (by omega), rest]
  have tail : ((bytesAt m data size).drop 19).take (size - 19 - Armor.ephemeralPublicKeyLen) =
      bytesAt m (data + 19) (size - 19 - Armor.ephemeralPublicKeyLen) := by
    rw [drop_bytesAt (by omega), take_bytesAt (by omega)]
  have head : (bytesAt m data size).take 19 = (bytesAt m data (size - Armor.ephemeralPublicKeyLen)).take 19 := by
    rw [take_bytesAt (by omega), take_bytesAt (by omega)]
  rw [dearmorOuter, Armor.dearmorOuter]
  rw [layered, ephemeralKey, length_bytesAt, tail, xorStream_bytesAt]
  constructor
  · rw [bytesAt_written (by omega), overwrite_tail (by
      rw [List.length_map, List.length_range, length_bytesAt]; omega), head]
    rfl
  · intro x outside
    rw [written_outside (by omega)]

end Outer

section Packets

variable {curve : Curve} {stack : Stack} {key : BitVec 384} {data size : Nat} {m : Memory}

theorem placed_congr {m' : Memory} (placed : stack.Placed data m)
    (same : ∀ i < 32, m' (stack.zeroKey + i) = m (stack.zeroKey + i)) : stack.Placed data m' :=
  { placed with zeros := fun i below => (same i below).trans (placed.zeros i below) }

/-- Setting a flag keeps everything else. -/
theorem setOctet_spec (change : Byte → Byte) (placed : stack.Placed data m) (long : 27 ≤ size)
    (fits : size ≤ Packet.maxPacketLength) :
    stack.Placed data (setOctet data change m) ∧
      bytesAt (setOctet data change m) data size =
        (bytesAt m data size).set 18 (change (Packet.flags (bytesAt m data size))) ∧
      ∀ x, x < data ∨ data + size ≤ x → setOctet data change m x = m x := by
  have packetZero := placed.packetZero
  refine ⟨placed_congr placed fun i below => Function.update_of_ne (by omega) _ _, ?_,
    fun x outside => Function.update_of_ne (by omega) _ _⟩
  rw [setOctet, bytesAt_set, Packet.flags, byteAt_bytesAt (by omega)]

/-- The suites on a packet whose cipher is set. -/
theorem poly1305_suite (c : Byte) (encrypt : Bool) (placed : stack.Placed data m) (long : 27 ≤ size)
    (fits : size ≤ Packet.maxPacketLength) :
    bytesAt (armorPoly1305 stack key data size encrypt (setOctet data (Armor.withCipher · c) m)) data size =
        Armor.armorPoly1305 (ciphers curve) false key encrypt (Armor.setCipher (bytesAt m data size) c) ∧
      ∀ x, stack.Elsewhere data size x →
        armorPoly1305 stack key data size encrypt (setOctet data (Armor.withCipher · c) m) x = m x := by
  obtain ⟨placed', bytes, kept⟩ := setOctet_spec (Armor.withCipher · c) placed long fits
  obtain ⟨refined, elsewhere⟩ := @armorPoly1305_refines curve stack key data size _ placed' fits long encrypt
  rw [bytes] at refined
  exact ⟨refined, fun x outside => (elsewhere x outside).trans (kept x outside.1)⟩

theorem aes_suite (e : GMACSIVEncryptor) (aesKeys : AesKeys) (c : Byte) (placed : stack.Placed data m)
    (long : 27 ≤ size) (fits : size ≤ Packet.maxPacketLength) :
    bytesAt (armorAes aesKeys data size e (setOctet data (Armor.withCipher · c) m)) data size =
        Armor.armorAes (ciphers curve) aesKeys (Armor.setCipher (bytesAt m data size) c) ∧
      ∀ x, stack.Elsewhere data size x →
        armorAes aesKeys data size e (setOctet data (Armor.withCipher · c) m) x = m x := by
  have most : Packet.maxPacketLength < 2 ^ 31 := by decide
  obtain ⟨-, bytes, kept⟩ := setOctet_spec (Armor.withCipher · c) placed long fits
  have refined := @armorAes_refines curve aesKeys data size (setOctet data (Armor.withCipher · c) m) e long (by omega)
  rw [bytes] at refined
  exact ⟨refined, fun x outside => (armorAes_elsewhere e long (by omega) outside.1).trans (kept x outside.1)⟩

/-- The outer layer, if there is one, on a packet that is armored. -/
theorem layer_spec {m' : Memory} (ephemeral theirs : BitVec 256) (extended : Bool) (long : 27 ≤ size)
    (fits : size ≤ Packet.maxPacketLength) (elsewhere : ∀ x, stack.Elsewhere data size x → m' x = m x) :
    (if extended then armorOuter curve data size ephemeral theirs m' else some (size, m')).map
        (fun r => bytesAt r.2 data r.1) =
      (if extended then Armor.armorOuter (ciphers curve) ephemeral theirs (bytesAt m' data size)
        else some (bytesAt m' data size)) ∧
    ∀ r, (if extended then armorOuter curve data size ephemeral theirs m' else some (size, m')) = some r →
      (size ≤ r.1 ∧ r.1 ≤ Packet.maxPacketLength) ∧ ∀ x, stack.Elsewhere data r.1 x → r.2 x = m x := by
  cases extended with
  | false =>
      refine ⟨rfl, ?_⟩
      rintro r ⟨⟩
      exact ⟨⟨Nat.le_refl _, fits⟩, elsewhere⟩
  | true =>
      obtain ⟨refined, kept⟩ := @armorOuter_refines curve data size m' ephemeral theirs long fits
      refine ⟨refined, ?_⟩
      intro r sent
      have grown : size ≤ r.1 ∧ r.1 ≤ Packet.maxPacketLength := by
        rw [if_pos rfl, armorOuter] at sent
        by_cases full : Packet.maxPacketLength < size + Armor.ephemeralPublicKeyLen
        · rw [if_pos full] at sent
          exact nomatch sent
        · rw [if_neg full] at sent
          have size' := congrArg Prod.fst (Option.some.inj sent)
          dsimp only at size'
          omega
      refine ⟨grown, fun x outside => (kept r sent x outside.1).trans (elsewhere x ⟨?_, outside.2⟩)⟩
      have left := outside.1
      omega

/-- `Packet::armor` makes of the bytes in memory what the model makes of a packet, and writes nowhere else. -/
theorem armor_refines (e : GMACSIVEncryptor) (ephemeral : BitVec 256) (encryptPayload extended : Bool)
    (aesKeys : Option AesKeys) (identity : Identity) (placed : stack.Placed data m) (long : 27 ≤ size)
    (fits : size ≤ Packet.maxPacketLength) :
    (armor curve stack key data size e ephemeral encryptPayload extended aesKeys identity m).map
        (fun r => bytesAt r.2 data r.1) =
      Armor.armor (ciphers curve) false ephemeral key encryptPayload extended aesKeys identity (bytesAt m data size) ∧
    ∀ r, armor curve stack key data size e ephemeral encryptPayload extended aesKeys identity m = some r →
      (size ≤ r.1 ∧ r.1 ≤ Packet.maxPacketLength) ∧ ∀ x, stack.Elsewhere data r.1 x → r.2 x = m x := by
  obtain ⟨placed', bytes, kept⟩ := setOctet_spec (Armor.withExtendedArmor · extended) placed long fits
  have poly (c : Byte) (encrypt : Bool) := @poly1305_suite curve stack key data size _ c encrypt placed' long fits
  have aes (aesKeys : AesKeys) := @aes_suite curve stack data size _ e aesKeys 3 placed' long fits
  rw [bytes] at poly aes
  have outer {m' : Memory} (elsewhere : ∀ x, stack.Elsewhere data size x →
      m' x = setOctet data (Armor.withExtendedArmor · extended) m x) :=
    @layer_spec curve stack data size m m' ephemeral (Armor.firstHalf identity.publicKey) extended long fits
      fun x outside => (elsewhere x outside).trans (kept x outside.1)
  cases encryptPayload with
  | false =>
      obtain ⟨packet, elsewhere⟩ := poly 0 false
      have layered := outer elsewhere
      rw [packet] at layered
      cases aesKeys <;> exact layered
  | true =>
      cases aesKeys with
      | none =>
          obtain ⟨packet, elsewhere⟩ := poly 1 true
          have layered := outer elsewhere
          rw [packet] at layered
          exact layered
      | some aesKeys =>
          obtain ⟨packet, elsewhere⟩ := aes aesKeys
          have layered := outer elsewhere
          rw [packet] at layered
          exact layered

theorem dearmorSuite_refines (d : GMACSIVDecryptor) (aesKeys : Option AesKeys) (cs : Byte)
    (placed : stack.Placed data m) (long : 27 ≤ size) (fits : size ≤ Packet.maxPacketLength) :
    ((dearmorSuite stack key data size d aesKeys cs m).1,
        bytesAt (dearmorSuite stack key data size d aesKeys cs m).2 data size) =
        Armor.dearmorSuite (ciphers curve) false key aesKeys cs (bytesAt m data size) ∧
      ∀ x, stack.Elsewhere data size x → (dearmorSuite stack key data size d aesKeys cs m).2 x = m x := by
  have most : Packet.maxPacketLength < 2 ^ 31 := by decide
  unfold dearmorSuite Armor.dearmorSuite
  by_cases aes : cs = 3
  · rw [if_pos aes, if_pos aes]
    cases aesKeys with
    | none => exact ⟨rfl, fun x outside => rfl⟩
    | some aesKeys =>
        obtain ⟨refined, kept⟩ := @dearmorAes_refines curve aesKeys data size m d long (by omega)
        exact ⟨refined, fun x outside => kept x outside.1⟩
  · rw [if_neg aes, if_neg aes]
    by_cases poly : cs = 0 ∨ cs = 1
    · rw [if_pos poly, if_pos poly]
      exact dearmorPoly1305_refines placed fits long (cs = 1)
    · rw [if_neg poly, if_neg poly]
      exact ⟨rfl, fun x outside => rfl⟩

/-- `Packet::dearmor` too, of any bytes. -/
theorem dearmor_refines (d : GMACSIVDecryptor) (aesKeys : Option AesKeys) (privateKey : BitVec 512)
    (placed : stack.Placed data m) (long : 28 ≤ size) (fits : size ≤ Packet.maxPacketLength) :
    let r := dearmor curve stack key data size d aesKeys privateKey m
    (r.1, bytesAt r.2.2 data r.2.1) =
        Armor.dearmor (ciphers curve) false key aesKeys privateKey (bytesAt m data size) ∧
      ∀ x, stack.Elsewhere data size x → r.2.2 x = m x := by
  intro r
  have most : Packet.maxPacketLength < 2 ^ 31 := by decide
  have packetZero := placed.packetZero
  have flags : Packet.flags (bytesAt m data size) = m (data + 18) := byteAt_bytesAt (by omega)
  have cipher : Packet.cipher (bytesAt m data size) = (m (data + 18) &&& 0x38) >>> 3 := by rw [Packet.cipher, flags]
  have marked : (Armor.extendedArmor (bytesAt m data size) = true ∧ Packet.cipher (bytesAt m data size) = 0) ↔
      (m (data + 18) &&& 0x80 ≠ 0 ∧ (m (data + 18) &&& 0x38) >>> 3 = 0) := by
    rw [Armor.extendedArmor, flags, cipher, decide_eq_true_iff]
  have plain := @dearmorSuite_refines curve stack key data size m d aesKeys ((m (data + 18) &&& 0x38) >>> 3) placed
    (by omega) fits
  have split : r = dearmor curve stack key data size d aesKeys privateKey m := rfl
  rw [dearmor] at split
  rw [Armor.dearmor]
  dsimp only at split ⊢
  by_cases layered : m (data + 18) &&& 0x80 ≠ 0 ∧ (m (data + 18) &&& 0x38) >>> 3 = 0
  · rw [if_pos layered] at split
    rw [if_pos (marked.mpr layered), length_bytesAt]
    by_cases short : size < 28 + Armor.ephemeralPublicKeyLen
    · rw [if_pos short] at split ⊢
      rw [split]
      exact ⟨rfl, fun x outside => rfl⟩
    · rw [if_neg short] at split ⊢
      obtain ⟨inner, kept⟩ := @dearmorOuter_refines curve data size m (Armor.firstHalf privateKey) (by omega) (by omega)
      have placed' : stack.Placed data (dearmorOuter curve data size (Armor.firstHalf privateKey) m) :=
        placed_congr placed fun i below => kept _ (by omega)
      obtain ⟨refined, elsewhere⟩ := @dearmorSuite_refines curve stack key data (size - Armor.ephemeralPublicKeyLen) _ d
        aesKeys ((m (data + 18) &&& 0x38) >>> 3) placed' (by omega) (by omega)
      rw [inner] at refined
      rw [cipher, split]
      refine ⟨refined, fun x outside => (elsewhere x ⟨?_, outside.2⟩).trans (kept x outside.1)⟩
      have left := outside.1
      omega
  · rw [if_neg layered] at split
    rw [if_neg (fun both => layered (marked.mp both)), cipher, split]
    exact plain

/-- Both ends of a packet in memory: they do what the model does, and change the packet and their stack only. -/
theorem packets_refined (curve : Curve) (stack : Stack) (key : BitVec 384) (data size : Nat) (m : Memory)
    (aesKeys : Option AesKeys) (placed : stack.Placed data m) (long : 28 ≤ size) (fits : size ≤ Packet.maxPacketLength) :
    (∀ (e : GMACSIVEncryptor) (ephemeral : BitVec 256) (encryptPayload extended : Bool) (identity : Identity),
      (armor curve stack key data size e ephemeral encryptPayload extended aesKeys identity m).map
          (fun r => bytesAt r.2 data r.1) =
        Armor.armor (ciphers curve) false ephemeral key encryptPayload extended aesKeys identity (bytesAt m data size) ∧
      ∀ r, armor curve stack key data size e ephemeral encryptPayload extended aesKeys identity m = some r →
        (size ≤ r.1 ∧ r.1 ≤ Packet.maxPacketLength) ∧ ∀ x, stack.Elsewhere data r.1 x → r.2 x = m x) ∧
    ∀ (d : GMACSIVDecryptor) (privateKey : BitVec 512),
      ((dearmor curve stack key data size d aesKeys privateKey m).1,
          bytesAt (dearmor curve stack key data size d aesKeys privateKey m).2.2 data
            (dearmor curve stack key data size d aesKeys privateKey m).2.1) =
        Armor.dearmor (ciphers curve) false key aesKeys privateKey (bytesAt m data size) ∧
      ∀ x, stack.Elsewhere data size x → (dearmor curve stack key data size d aesKeys privateKey m).2.2 x = m x :=
  ⟨fun e ephemeral encryptPayload extended identity =>
      armor_refines e ephemeral encryptPayload extended aesKeys identity placed (by omega) fits,
    fun d privateKey => dearmor_refines d aesKeys privateKey placed long fits⟩

/-- A packet of zeros at the start of memory, with the stack far behind it. -/
def someStack : Stack := ⟨0x10000, 0x10100, 0x10200⟩

theorem someStack_placed : someStack.Placed 0 fun _ => 0 :=
  ⟨fun _ _ => rfl, by decide, by decide, by decide, by decide, by decide, by decide⟩

/-- The curve of toy keys. -/
def someCurve : Curve := ⟨fun secret => secret, fun mine theirs => mine ^^^ theirs⟩

def someEncryptor : GMACSIVEncryptor := ⟨0, (0, 0), unused, AesCtr.CTR.init ⟨0, 0, 0, 0⟩ 0⟩

theorem zeros_refined :
    (armor someCurve someStack 5 0 40 someEncryptor 7 true false (some (1, 2)) ⟨1, 0⟩ fun _ => 0).map
        (fun r => bytesAt r.2 0 r.1) =
      Armor.armor (ciphers someCurve) false 7 5 true false (some (1, 2)) ⟨1, 0⟩ (bytesAt (fun _ => 0) 0 40) :=
  ((packets_refined someCurve someStack 5 0 40 (fun _ => 0) (some (1, 2)) someStack_placed (by decide) (by decide)).1
    someEncryptor 7 true false ⟨1, 0⟩).1

/-- A packet that was put into memory. -/
def received (data : Nat) (packet : List Byte) (m : Memory) : Memory :=
  written data (fun i => packet.getD i 0) packet.length m

/-- What one end armors in its memory the other end restores in its own, whatever relays there are between them; of the
ciphers nothing is assumed but that keys agree. -/
theorem packets_restored (curve : Curve) (sender receiver : Stack) (key : BitVec 384) (encryptPayload extended : Bool)
    (aesKeys receiverKeys : Option AesKeys) (e : GMACSIVEncryptor) (d : GMACSIVDecryptor) (ephemeral : BitVec 256)
    (identity : Identity) (privateKey : BitVec 512) (data data' size relays : Nat) (m m' : Memory)
    (agree_comm : ∀ mine theirs, curve.agree mine (curve.calcPubDH theirs) = curve.agree theirs (curve.calcPubDH mine))
    (placed : sender.Placed data m) (placed' : receiver.Placed data' m') (whole : Packet.minPacketLength ≤ size)
    (inside : size ≤ Packet.maxPacketLength) (layers : ¬ (encryptPayload = true ∧ extended = true))
    (sameKeys : encryptPayload = true → aesKeys ≠ none → receiverKeys = aesKeys)
    (ownKey : Armor.firstHalf identity.publicKey = curve.calcPubDH (Armor.firstHalf privateKey))
    (fits : extended = true → size + Armor.ephemeralPublicKeyLen ≤ Packet.maxPacketLength)
    (fresh : encryptPayload = true → aesKeys ≠ none → m (data + 18) &&& 0x07 = 0) :
    ∃ n armored n' plain, armor curve sender key data size e ephemeral encryptPayload extended aesKeys identity m =
        some (n, armored) ∧
      dearmor curve receiver key data' n d receiverKeys privateKey
          (received data' (Armor.incrementHops^[relays] (bytesAt armored data n)) m') = (true, n', plain) ∧
      Armor.Restored (bytesAt m data size) (bytesAt plain data' n') := by
  have lawful := ciphers_lawful agree_comm
  have minimum : Packet.minPacketLength = 28 := rfl
  have long : 27 ≤ (bytesAt m data size).length := by
    rw [length_bytesAt]
    omega
  have fresh' : encryptPayload = true → aesKeys ≠ none → Packet.flags (bytesAt m data size) &&& 0x07 = 0 := by
    rw [Packet.flags, byteAt_bytesAt (by omega)]
    exact fresh
  obtain ⟨packet, plain, sent, opened, restored⟩ : ∃ packet plain,
      Armor.armor (ciphers curve) false ephemeral key encryptPayload extended aesKeys identity (bytesAt m data size) =
        some packet ∧
      Armor.dearmor (ciphers curve) false key receiverKeys privateKey (Armor.incrementHops^[relays] packet) =
        (true, plain) ∧ Armor.Restored (bytesAt m data size) plain := by
    have cut := Armor.Parts.bytes_cut (bytesAt m data size) long
    generalize Armor.Parts.cut (bytesAt m data size) long = p at cut
    have verb : 0 < p.body.length := by
      have length := congrArg List.length cut
      rw [Armor.Parts.length_bytes, length_bytesAt] at length
      omega
    rw [← cut] at fresh' ⊢
    cases extended with
    | true =>
        have clear : encryptPayload = false := Bool.eq_false_iff.mpr fun encrypted => layers ⟨encrypted, rfl⟩
        rw [clear]
        obtain ⟨packet, plain, sent, opened, both, -⟩ := Armor.outer_round_trip lawful false false key identity
          privateKey ephemeral p relays aesKeys receiverKeys verb ownKey (by rw [cut, length_bytesAt]; exact fits rfl)
        exact ⟨packet, plain, sent, opened, both.1⟩
    | false =>
        by_cases aes : encryptPayload = true ∧ aesKeys ≠ none
        · obtain ⟨keys, known⟩ := Option.ne_none_iff_exists'.mp aes.2
          have octet := fresh' aes.1 aes.2
          rw [Armor.Parts.flags_bytes] at octet
          obtain ⟨packet, plain, sent, opened, restored, -⟩ := Armor.aes_round_trip lawful false false key identity
            privateKey ephemeral p relays keys octet
          rw [sameKeys aes.1 aes.2, aes.1, known]
          exact ⟨packet, plain, sent, opened, restored⟩
        · obtain ⟨packet, plain, sent, opened, both, -⟩ := @Armor.poly1305_round_trip (ciphers curve) false false key
            identity privateKey ephemeral p relays encryptPayload aesKeys receiverKeys fun encrypted =>
              not_not.mp fun used => aes ⟨encrypted, used⟩
          exact ⟨packet, plain, sent, opened, both.1⟩
  obtain ⟨refined, bounds⟩ := @armor_refines curve sender key data size m e ephemeral encryptPayload extended aesKeys
    identity placed (by omega) inside
  rw [sent, Option.map_eq_some_iff] at refined
  obtain ⟨r, done, same⟩ := refined
  have within := (bounds r done).1
  have length : (Armor.incrementHops^[relays] packet).length = r.1 := by
    have hops : ∀ packet : List Byte, (Armor.incrementHops^[relays] packet).length = packet.length := by
      intro packet
      clear opened
      induction relays generalizing packet with
      | zero => rfl
      | succ relays ih => rw [Function.iterate_succ_apply, ih, Armor.incrementHops, List.length_set]
    rw [hops, ← same, length_bytesAt]
  have arrived : bytesAt (received data' (Armor.incrementHops^[relays] packet) m') data' r.1 =
      Armor.incrementHops^[relays] packet := by
    rw [received, length]
    exact bytesAt_written_self length
  have packetZero := placed'.packetZero
  have ready : receiver.Placed data' (received data' (Armor.incrementHops^[relays] packet) m') :=
    placed_congr placed' fun i below => written_outside (by omega)
  obtain ⟨accepted, -⟩ := @dearmor_refines curve receiver key data' r.1 _ d receiverKeys privateKey ready (by omega)
    within.2
  rw [arrived, opened] at accepted
  obtain ⟨yes, bytes⟩ := Prod.mk.inj accepted
  rw [← same] at yes bytes
  refine ⟨r.1, r.2, _, _, done, Prod.ext yes rfl, ?_⟩
  rw [bytes]
  exact restored

theorem nodeOne_agreed : Armor.firstHalf Armor.nodeOne.publicKey = someCurve.calcPubDH (Armor.firstHalf 0) := by
  dsimp only [Armor.nodeOne, someCurve]

theorem zeros_restored :
    ∃ n armored n' plain, armor someCurve someStack 5 0 40 someEncryptor 7 true false (some (1, 2)) Armor.nodeOne (fun _ => 0) =
        some (n, armored) ∧
      dearmor someCurve someStack 5 0 n ⟨(0, 0), AesCtr.CTR.init ⟨0, 0, 0, 0⟩ 0, unused, 0, 0⟩ (some (1, 2)) 0
          (received 0 (Armor.incrementHops^[3] (bytesAt armored 0 n)) fun _ => 0) = (true, n', plain) ∧
      Armor.Restored (bytesAt (fun _ => 0) 0 40) (bytesAt plain 0 n') :=
  packets_restored someCurve someStack someStack 5 true false (some (1, 2)) (some (1, 2)) someEncryptor
    ⟨(0, 0), AesCtr.CTR.init ⟨0, 0, 0, 0⟩ 0, unused, 0, 0⟩ 7 Armor.nodeOne 0 0 0 40 3 (fun _ => 0) (fun _ => 0)
    (fun mine theirs => BitVec.xor_comm mine theirs) someStack_placed someStack_placed (by decide) (by decide)
    (fun both => nomatch both.2) (fun _ _ => rfl) nodeOne_agreed (fun layered => nomatch layered) fun _ _ => by decide

end Packets

end ZeroTierNode.ArmorMemory
