import Mathlib.Data.BitVec
import ZeroTierNode.Library.Ciphers
import ZeroTierNode.FragmentDelivery

/-!
`Packet::armor` and `Packet::dearmor`: authentication and encryption of packets in
place. The primitives are left open; a block is two words, each with its first byte
most significant.
-/

namespace ZeroTierNode.Armor
open Library.Bytes Library.Ciphers

abbrev Block := BitVec 64 × BitVec 64

/-- The cryptography that packets are armored with. -/
structure Primitives where
  /-- The key streams of Salsa20/12 and of AES in counter mode. -/
  salsa2012 : (key iv : List Byte) → Nat → Byte
  aesCtr : BitVec 256 → Block → Nat → Byte
  aesEncrypt : BitVec 256 → Block → Block
  aesDecrypt : BitVec 256 → Block → Block
  /-- GMAC of the pieces that `update` is called with; 32 bits of zeros follow the initialization vector. -/
  gmac : BitVec 256 → BitVec 64 → List (List Byte) → Block
  poly1305 : (key message : List Byte) → Block
  /-- `_calcPubDH` and `agree` on the first halves of the keys. -/
  calcPubDH : BitVec 256 → BitVec 256
  agree : BitVec 256 → BitVec 256 → BitVec 256

/-- What is relied on beyond the types. -/
structure Primitives.Lawful (crypto : Primitives) : Prop where
  agree_comm : ∀ mine theirs, crypto.agree mine (crypto.calcPubDH theirs) = crypto.agree theirs (crypto.calcPubDH mine)
  aesDecrypt_aesEncrypt : ∀ key block, crypto.aesDecrypt key (crypto.aesEncrypt key block) = block

/-- The keys of a packet's two ends: the shared key, the AES keys if they are in use. -/
abbrev AesKeys := BitVec 256 × BitVec 256

/-- `ZT_ECC_EPHEMERAL_PUBLIC_KEY_LEN`. -/
abbrev ephemeralPublicKeyLen : Nat := 32

/-- Curve25519 uses the first halves of the key sets. -/
def firstHalf (keys : BitVec 512) : BitVec 256 := keys.extractLsb' 256 256

def hops (data : List Byte) : Byte := Packet.flags data &&& 0x07

/-- `incrementHops` and `setCipher` on the flags octet. -/
def nextHop (octet : Byte) : Byte := (octet &&& 0xf8) ||| ((octet + 1) &&& 0x07)

def withCipher (octet c : Byte) : Byte := (octet &&& 0xc7) ||| ((c <<< 3) &&& 0x38)

def incrementHops (data : List Byte) : List Byte := data.set 18 (nextHop (Packet.flags data))

def setCipher (data : List Byte) (c : Byte) : List Byte := data.set 18 (withCipher (Packet.flags data) c)

/-- Flag `ZT_PROTO_FLAG_EXTENDED_ARMOR`. -/
def extendedArmor (data : List Byte) : Bool := Packet.flags data &&& 0x80 ≠ 0

def withExtendedArmor (octet : Byte) (f : Bool) : Byte := if f then octet ||| 0x80 else octet &&& 0x7f

def setExtendedArmor (data : List Byte) (f : Bool) : List Byte :=
  data.set 18 (withExtendedArmor (Packet.flags data) f)

/-- `_salsa20MangleKey`. -/
def salsa20MangleKey (key : BitVec 384) (data : List Byte) : List Byte :=
  let input := wordBytes 48 key
  (List.range 32).map fun i =>
    if i < 18 then Packet.byteAt input i ^^^ Packet.byteAt data i
    else if i = 18 then Packet.byteAt input i ^^^ (Packet.flags data &&& 0xf8)
    else if i = 19 then Packet.byteAt input i ^^^ BitVec.ofNat 8 (data.length &&& 0xff)
    else if i = 20 then Packet.byteAt input i ^^^ BitVec.ofNat 8 ((data.length >>> 8) &&& 0xff)
    else Packet.byteAt input i

/-- The state of `Salsa20`: the key stream and the number of the next block of 64 bytes. -/
structure Salsa20 where
  stream : Nat → Byte
  block : Nat

/-- `crypt12`, which uses up whole blocks. -/
def Salsa20.crypt12 (s20 : Salsa20) (input : List Byte) : List Byte × Salsa20 :=
  (xorStream (fun i => s20.stream (64 * s20.block + i)) input,
    { s20 with block := s20.block + (input.length + 63) / 64 })

section GmacSiv

variable (crypto : Primitives) (aesKeys : AesKeys)

/-- The pieces of additional data, padded to a multiple of 16 bytes. -/
def aad (data : List Byte) : List (List Byte) :=
  if data.length % 16 = 0 then [data] else [data, List.replicate (16 - data.length % 16) 0]

/-- The counter in the low 32 bits starts with its high bit zero. -/
def ctrStart (tag : Block) : Block := (tag.1, tag.2 &&& 0xffffffff7fffffff)

/-- `GMACSIVEncryptor`: tag and ciphertext. -/
def gmacSivEncrypt (iv : BitVec 64) (additional input : List Byte) : Block × List Byte :=
  let mac := crypto.gmac aesKeys.1 iv (aad additional ++ [input])
  let tag := crypto.aesEncrypt aesKeys.2 (iv, mac.1 ^^^ mac.2)
  (tag, xorStream (crypto.aesCtr aesKeys.2 (ctrStart tag)) input)

/-- `GMACSIVDecryptor`: whether the plaintext is authentic, and the plaintext. -/
def gmacSivDecrypt (tag : Block) (additional input : List Byte) : Bool × List Byte :=
  let ivMac := crypto.aesDecrypt aesKeys.2 tag
  let output := xorStream (crypto.aesCtr aesKeys.2 (ctrStart tag)) input
  let mac := crypto.gmac aesKeys.1 ivMac.1 (aad additional ++ [output])
  (mac.1 ^^^ mac.2 = ivMac.2, output)

end GmacSiv

section Suites

variable (crypto : Primitives) (fastCrypto : Bool)

/-- The first branch of `armor`. -/
def armorAes (aesKeys : AesKeys) (data : List Byte) : List Byte :=
  let (tag, payload) := gmacSivEncrypt crypto aesKeys (Packet.packetId data) (Packet.fieldAt data 8 11) (data.drop 27)
  overwrite (overwrite (data.take 27 ++ payload) 0 (wordBytes 8 tag.1)) 19 (wordBytes 8 tag.2)

/-- The second branch of `armor`, with and without a single-pass key stream. -/
def armorPoly1305 (key : BitVec 384) (encryptPayload : Bool) (data : List Byte) : List Byte :=
  let stream := crypto.salsa2012 (salsa20MangleKey key data) (Packet.fieldAt data 0 8)
  if fastCrypto then
    let payloadLen := if encryptPayload then data.length - 27 else 0
    let keyStream := streamBytes stream (payloadLen + 64)
    let payload := memxor (data.drop 27) (keyStream.drop 64) payloadLen
    let mac := crypto.poly1305 (keyStream.take 32) payload
    overwrite (data.take 27 ++ payload) 19 (wordBytes 8 mac.1)
  else
    let (macKey, s20) := (Salsa20.mk stream 0).crypt12 (List.replicate 32 0)
    let payload := if encryptPayload then (s20.crypt12 (data.drop 27)).1 else data.drop 27
    let mac := crypto.poly1305 macKey payload
    overwrite (data.take 27 ++ payload) 19 (wordBytes 8 mac.1)

/-- The counter of the outer layer: the first 12 bytes of the packet. -/
def outerStart (data : List Byte) : Block :=
  (Packet.packetId data, wordOf 32 (Packet.fieldAt data 8 4) ++ (0 : BitVec 32))

/-- The outer layer of `armor`; the packet throws where its buffer ends. -/
def armorOuter (ephemeral theirs : BitVec 256) (data : List Byte) : Option (List Byte) :=
  let symmetric := crypto.agree ephemeral theirs
  let data := data.take 19 ++ xorStream (crypto.aesCtr symmetric (outerStart data)) (data.drop 19)
  if Packet.maxPacketLength < data.length + ephemeralPublicKeyLen then none
  else some (data ++ wordBytes ephemeralPublicKeyLen (crypto.calcPubDH ephemeral))

/-- `Packet::armor`, with the secret that `ECC::generate` gives. -/
def armor (ephemeral : BitVec 256) (key : BitVec 384) (encryptPayload extended : Bool)
    (aesKeys : Option AesKeys) (identity : Identity) (data : List Byte) : Option (List Byte) :=
  let data := setExtendedArmor data extended
  let data :=
    match aesKeys, encryptPayload with
    | some aesKeys, true => armorAes crypto aesKeys (setCipher data 3)
    | _, _ => armorPoly1305 crypto fastCrypto key encryptPayload (setCipher data (if encryptPayload then 1 else 0))
  if extended then armorOuter crypto ephemeral (firstHalf identity.publicKey) data else some data

/-- The outer layer of `dearmor`. -/
def dearmorOuter (mine : BitVec 256) (data : List Byte) : List Byte :=
  let ephemeralKey := wordOf 256 (data.drop (data.length - ephemeralPublicKeyLen))
  let symmetric := crypto.agree mine ephemeralKey
  data.take 19 ++
    xorStream (crypto.aesCtr symmetric (outerStart data))
      ((data.drop 19).take (data.length - 19 - ephemeralPublicKeyLen))

/-- `dearmor` for AES-GMAC-SIV: the hops are masked while the additional data is read. -/
def dearmorAes (aesKeys : AesKeys) (data : List Byte) : Bool × List Byte :=
  let tag := (Packet.packetId data, Packet.trustedPathId data)
  let masked := data.set 18 (Packet.flags data &&& 0xf8)
  let (authentic, payload) := gmacSivDecrypt crypto aesKeys tag (Packet.fieldAt masked 8 11) (data.drop 27)
  (authentic, data.take 27 ++ payload)

/-- `dearmor` for the suites with Poly1305. -/
def dearmorPoly1305 (key : BitVec 384) (decrypt : Bool) (data : List Byte) : Bool × List Byte :=
  let payload := data.drop 27
  let stream := crypto.salsa2012 (salsa20MangleKey key data) (Packet.fieldAt data 0 8)
  if fastCrypto then
    let keyStream := streamBytes stream (if decrypt then payload.length + 64 else 64)
    let mac := crypto.poly1305 (keyStream.take 32) payload
    if Packet.trustedPathId data ≠ mac.1 then (false, data)
    else (true, data.take 27 ++ if decrypt then memxor payload (keyStream.drop 64) payload.length else payload)
  else
    let (macKey, s20) := (Salsa20.mk stream 0).crypt12 (List.replicate 32 0)
    let mac := crypto.poly1305 macKey payload
    if Packet.trustedPathId data ≠ mac.1 then (false, data)
    else (true, data.take 27 ++ if decrypt then (s20.crypt12 payload).1 else payload)

/-- `dearmor` behind the outer layer. -/
def dearmorSuite (key : BitVec 384) (aesKeys : Option AesKeys) (cs : Byte) (data : List Byte) : Bool × List Byte :=
  if cs = 3 then
    match aesKeys with
    | some aesKeys => dearmorAes crypto aesKeys data
    | none => (false, data)
  else if cs = 0 ∨ cs = 1 then dearmorPoly1305 crypto fastCrypto key (cs = 1) data
  else (false, data)

/-- `Packet::dearmor`: acceptance, and the packet afterwards. -/
def dearmor (key : BitVec 384) (aesKeys : Option AesKeys) (privateKey : BitVec 512) (data : List Byte) :
    Bool × List Byte :=
  let cs := Packet.cipher data
  if extendedArmor data ∧ cs = 0 then
    if data.length < 28 + ephemeralPublicKeyLen then (false, data)
    else dearmorSuite crypto fastCrypto key aesKeys cs (dearmorOuter crypto (firstHalf privateKey) data)
  else dearmorSuite crypto fastCrypto key aesKeys cs data

end Suites

/-- A packet cut at its fields; the verb is the first byte of the body. -/
structure Parts where
  iv : List Byte
  addresses : List Byte
  flags : Byte
  mac : List Byte
  body : List Byte
  ivLength : iv.length = 8
  addressesLength : addresses.length = 10
  macLength : mac.length = 8

namespace Parts

def bytes (p : Parts) : List Byte := p.iv ++ (p.addresses ++ ([p.flags] ++ (p.mac ++ p.body)))

theorem length_fieldAt {data : List Byte} {start count : Nat} (inside : start + count ≤ data.length) :
    (Packet.fieldAt data start count).length = count := by
  rw [Packet.fieldAt, List.length_take, List.length_drop]
  omega

theorem cut_ivLength {data : List Byte} (long : 27 ≤ data.length) : (Packet.fieldAt data 0 8).length = 8 :=
  length_fieldAt (by omega)

theorem cut_addressesLength {data : List Byte} (long : 27 ≤ data.length) : (Packet.fieldAt data 8 10).length = 10 :=
  length_fieldAt (by omega)

theorem cut_macLength {data : List Byte} (long : 27 ≤ data.length) : (Packet.fieldAt data 19 8).length = 8 :=
  length_fieldAt (by omega)

/-- Every packet is cut. -/
def cut (data : List Byte) (long : 27 ≤ data.length) : Parts where
  iv := Packet.fieldAt data 0 8
  addresses := Packet.fieldAt data 8 10
  flags := Packet.flags data
  mac := Packet.fieldAt data 19 8
  body := data.drop 27
  ivLength := cut_ivLength long
  addressesLength := cut_addressesLength long
  macLength := cut_macLength long

theorem bytes_cut (data : List Byte) (long : 27 ≤ data.length) : (cut data long).bytes = data := by
  have octet : [Packet.flags data] = Packet.fieldAt data 18 1 := by
    have inside : 18 < data.length := by omega
    rw [Packet.flags, Packet.byteAt, Packet.fieldAt, List.getD_eq_getElem?_getD, List.getElem?_eq_getElem inside,
      Option.getD_some, List.drop_eq_getElem_cons inside]
    rfl
  have joined (start count : Nat) :
      Packet.fieldAt data start count ++ data.drop (start + count) = data.drop start := by
    rw [Packet.fieldAt, ← List.drop_drop, List.take_append_drop]
  change Packet.fieldAt data 0 8 ++ (Packet.fieldAt data 8 10 ++ ([Packet.flags data] ++
    (Packet.fieldAt data 19 8 ++ data.drop (19 + 8)))) = data
  rw [joined 19 8, octet, joined 18 1, joined 8 10, joined 0 8, List.drop_zero]

variable (p : Parts)

@[simp] theorem length_bytes : p.bytes.length = 27 + p.body.length := by
  simp only [bytes, List.length_append, p.ivLength, p.addressesLength, p.macLength, List.length_singleton]
  omega

theorem drop_iv : p.bytes.drop 8 = p.addresses ++ ([p.flags] ++ (p.mac ++ p.body)) := by
  rw [bytes, List.drop_left' p.ivLength]

theorem drop_flags : p.bytes.drop 18 = [p.flags] ++ (p.mac ++ p.body) := by
  rw [show 18 = 8 + 10 from rfl, ← List.drop_drop, drop_iv, List.drop_left' p.addressesLength]

theorem drop_mac : p.bytes.drop 19 = p.mac ++ p.body := by
  rw [show 19 = 18 + 1 from rfl, ← List.drop_drop, drop_flags]
  rfl

@[simp] theorem drop_body : p.bytes.drop 27 = p.body := by
  rw [show 27 = 19 + 8 from rfl, ← List.drop_drop, drop_mac, List.drop_left' p.macLength]

@[simp] theorem fieldAt_iv : Packet.fieldAt p.bytes 0 8 = p.iv := by
  rw [Packet.fieldAt, List.drop_zero, bytes, List.take_left' p.ivLength]

@[simp] theorem fieldAt_addresses : Packet.fieldAt p.bytes 8 10 = p.addresses := by
  rw [Packet.fieldAt, drop_iv, List.take_left' p.addressesLength]

@[simp] theorem fieldAt_mac : Packet.fieldAt p.bytes 19 8 = p.mac := by
  rw [Packet.fieldAt, drop_mac, List.take_left' p.macLength]

/-- The additional data of AES-GMAC-SIV. -/
theorem fieldAt_additional : Packet.fieldAt p.bytes 8 11 = p.addresses ++ [p.flags] := by
  have length : (p.addresses ++ [p.flags]).length = 11 := by
    rw [List.length_append, p.addressesLength, List.length_singleton]
  rw [Packet.fieldAt, drop_iv, ← List.append_assoc, List.take_left' length]

@[simp] theorem flags_bytes : Packet.flags p.bytes = p.flags := by
  have octet : Packet.flags p.bytes = Packet.byteAt (p.bytes.drop 18) 0 := by
    simp [Packet.flags, Packet.byteAt, List.getD_eq_getElem?_getD, List.getElem?_drop]
  rw [octet, drop_flags]
  rfl

theorem set_flags (octet : Byte) : p.bytes.set 18 octet = { p with flags := octet }.bytes := by
  have before : (p.iv ++ p.addresses).length = 18 := by
    rw [List.length_append, p.ivLength, p.addressesLength]
  have grouped : p.bytes = (p.iv ++ p.addresses) ++ (p.flags :: (p.mac ++ p.body)) := by
    rw [bytes, List.append_assoc]
    rfl
  rw [grouped, List.set_append_right _ _ (by omega), before]
  change (p.iv ++ p.addresses) ++ (octet :: (p.mac ++ p.body)) = { p with flags := octet }.bytes
  rw [bytes, List.append_assoc]
  rfl

theorem take_body (payload : List Byte) : p.bytes.take 27 ++ payload = { p with body := payload }.bytes := by
  have before : (p.iv ++ (p.addresses ++ ([p.flags] ++ p.mac))).length = 27 := by
    simp only [List.length_append, p.ivLength, p.addressesLength, p.macLength, List.length_singleton]
  have grouped (body : List Byte) : { p with body := body }.bytes =
      (p.iv ++ (p.addresses ++ ([p.flags] ++ p.mac))) ++ body := by
    simp only [bytes, List.append_assoc]
  rw [grouped payload, show p.bytes = { p with body := p.body }.bytes from rfl, grouped p.body,
    List.take_left' before]

theorem take_mac : p.bytes.take 19 = p.iv ++ (p.addresses ++ [p.flags]) := by
  have before : (p.iv ++ (p.addresses ++ [p.flags])).length = 19 := by
    simp only [List.length_append, p.ivLength, p.addressesLength, List.length_singleton]
  have grouped : p.bytes = (p.iv ++ (p.addresses ++ [p.flags])) ++ (p.mac ++ p.body) := by
    simp only [bytes, List.append_assoc]
  rw [grouped, List.take_left' before]

/-- A word written to one of the two fields that hold words. -/
def withIv (word : BitVec 64) : Parts := { p with iv := wordBytes 8 word, ivLength := wordBytes_length 8 word }

def withMac (word : BitVec 64) : Parts := { p with mac := wordBytes 8 word, macLength := wordBytes_length 8 word }

theorem overwrite_iv (word : BitVec 64) : overwrite p.bytes 0 (wordBytes 8 word) = (p.withIv word).bytes := by
  have same : (wordBytes 8 word).length = p.iv.length := by rw [wordBytes_length, p.ivLength]
  exact overwrite_middle [] p.iv _ _ same

theorem overwrite_mac (word : BitVec 64) : overwrite p.bytes 19 (wordBytes 8 word) = (p.withMac word).bytes := by
  have same : (wordBytes 8 word).length = p.mac.length := by rw [wordBytes_length, p.macLength]
  have before : (p.iv ++ (p.addresses ++ [p.flags])).length = 19 := by
    simp only [List.length_append, p.ivLength, p.addressesLength, List.length_singleton]
  have grouped (q : Parts) : q.bytes = (q.iv ++ (q.addresses ++ [q.flags])) ++ (q.mac ++ q.body) := by
    simp only [bytes, List.append_assoc]
  rw [grouped p, grouped (p.withMac word), ← before]
  exact overwrite_middle _ p.mac p.body _ same

end Parts

section Suites

variable (crypto : Primitives) (fastCrypto : Bool) (key : BitVec 384) (aesKeys : AesKeys) (p : Parts)

/-- The key depends on the addresses, the flags without the hops, and the size. -/
theorem salsa20MangleKey_congr {p q : Parts} (iv : p.iv = q.iv) (addresses : p.addresses = q.addresses)
    (flags : p.flags &&& 0xf8 = q.flags &&& 0xf8) (size : p.body.length = q.body.length) :
    salsa20MangleKey key p.bytes = salsa20MangleKey key q.bytes := by
  have early (r : Parts) (i : Nat) (inside : i < 18) :
      Packet.byteAt r.bytes i = Packet.byteAt (r.iv ++ r.addresses) i := by
    have length : (r.iv ++ r.addresses).length = 18 := by
      rw [List.length_append, r.ivLength, r.addressesLength]
    rw [Packet.byteAt, Packet.byteAt, Parts.bytes, ← List.append_assoc,
      List.getD_append _ _ _ _ (by omega)]
  unfold salsa20MangleKey
  apply List.map_congr_left
  intro i _
  by_cases first : i < 18
  · rw [if_pos first, if_pos first, early p i first, early q i first, iv, addresses]
  · simp only [if_neg first, Parts.flags_bytes, Parts.length_bytes, flags, size]

/-- The body as the suites with Poly1305 send it. -/
def cryptBody (stream : Nat → Byte) (encrypt : Bool) (body : List Byte) : List Byte :=
  if encrypt then xorStream (fun i => stream (64 + i)) body else body

theorem length_cryptBody (stream : Nat → Byte) (encrypt : Bool) (body : List Byte) :
    (cryptBody stream encrypt body).length = body.length := by
  cases encrypt with
  | false => rfl
  | true => exact length_xorStream _ _

theorem cryptBody_cryptBody (stream : Nat → Byte) (encrypt : Bool) (body : List Byte) :
    cryptBody stream encrypt (cryptBody stream encrypt body) = body := by
  cases encrypt with
  | false => rfl
  | true => exact xorStream_xorStream _ _

/-- The key stream of a packet, and its MAC. -/
def packetStream : Nat → Byte := crypto.salsa2012 (salsa20MangleKey key p.bytes) p.iv

def packetMac (body : List Byte) : BitVec 64 :=
  (crypto.poly1305 (streamBytes (packetStream crypto key p) 32) body).1

/-- The first block of the key stream, whose first half is the key of the MAC. -/
theorem crypt12_zeros (stream : Nat → Byte) :
    (Salsa20.mk stream 0).crypt12 (List.replicate 32 0) = (streamBytes stream 32, ⟨stream, 1⟩) := by
  rw [← xorStream_zeros]
  simp [Salsa20.crypt12]

theorem armorPoly1305_bytes (encrypt : Bool) :
    let body := cryptBody (packetStream crypto key p) encrypt p.body
    armorPoly1305 crypto fastCrypto key encrypt p.bytes =
      ({ p with body := body }.withMac (packetMac crypto key p body)).bytes := by
  intro body
  have written : overwrite (p.bytes.take 27 ++ body) 19 (wordBytes 8 (packetMac crypto key p body)) =
      ({ p with body := body }.withMac (packetMac crypto key p body)).bytes := by
    rw [Parts.take_body, Parts.overwrite_mac]
  rw [← written]
  unfold armorPoly1305
  dsimp only
  rw [Parts.fieldAt_iv, Parts.drop_body, Parts.length_bytes, ← packetStream, crypt12_zeros]
  cases fastCrypto with
  | false => rfl
  | true =>
      cases encrypt with
      | false =>
          simp only [if_true, Bool.false_eq_true, if_false, memxor_zero]
          rw [streamBytes_take _ (by decide)]
          rfl
      | true =>
          simp only [if_true, Nat.add_sub_cancel_left]
          rw [memxor_streamBytes, streamBytes_take _ (by omega)]
          rfl

theorem dearmorPoly1305_bytes (decrypt : Bool) (authentic : wordOf 64 p.mac = packetMac crypto key p p.body) :
    dearmorPoly1305 crypto fastCrypto key decrypt p.bytes =
      (true, { p with body := cryptBody (packetStream crypto key p) decrypt p.body }.bytes) := by
  rw [← Parts.take_body p (cryptBody (packetStream crypto key p) decrypt p.body)]
  unfold dearmorPoly1305
  dsimp only
  rw [Packet.trustedPathId, Parts.fieldAt_iv, Parts.fieldAt_mac, Parts.drop_body, ← packetStream, crypt12_zeros,
    authentic]
  cases fastCrypto with
  | false =>
      simp only [Bool.false_eq_true, if_false]
      rw [← packetMac, if_neg (not_not.mpr rfl)]
      rfl
  | true =>
      cases decrypt with
      | false =>
          simp only [if_true, Bool.false_eq_true, if_false]
          rw [streamBytes_take _ (by decide), ← packetMac, if_neg (not_not.mpr rfl)]
          rfl
      | true =>
          simp only [if_true]
          rw [streamBytes_take _ (by omega), ← packetMac, if_neg (not_not.mpr rfl), memxor_streamBytes]
          rfl

/-- The suites with Poly1305: relays may have changed the hops. -/
theorem poly1305_restores (encrypt : Bool) (sender receiver : Bool) (octet : Byte)
    (relayed : octet &&& 0xf8 = p.flags &&& 0xf8) :
    ∃ q : Parts, (armorPoly1305 crypto sender key encrypt p.bytes).set 18 octet = q.bytes ∧
      dearmorPoly1305 crypto receiver key encrypt q.bytes = (true, { q with body := p.body }.bytes) ∧
      q.iv = p.iv ∧ q.addresses = p.addresses ∧ q.flags = octet ∧ q.body.length = p.body.length ∧
      (encrypt = false → q.body = p.body) := by
  let body := cryptBody (packetStream crypto key p) encrypt p.body
  let q : Parts := { { p with body := body }.withMac (packetMac crypto key p body) with flags := octet }
  have stream : packetStream crypto key q = packetStream crypto key p := by
    unfold packetStream
    rw [salsa20MangleKey_congr key (show q.iv = p.iv from rfl) rfl relayed (length_cryptBody _ encrypt p.body)]
    rfl
  have authentic : wordOf 64 q.mac = packetMac crypto key q q.body := by
    unfold packetMac
    rw [stream]
    exact wordOf_wordBytes 8 _ (by decide)
  have clear : encrypt = false → q.body = p.body := by
    intro clear
    change cryptBody (packetStream crypto key p) encrypt p.body = p.body
    rw [clear]
    rfl
  refine ⟨q, ?_, ?_, rfl, rfl, rfl, length_cryptBody _ encrypt p.body, clear⟩
  · rw [armorPoly1305_bytes, Parts.set_flags]
  · rw [dearmorPoly1305_bytes crypto receiver key q encrypt authentic, stream]
    change (true, { q with body := cryptBody (packetStream crypto key p) encrypt body }.bytes) = _
    rw [cryptBody_cryptBody]

theorem armorAes_bytes :
    let sealing := gmacSivEncrypt crypto aesKeys (wordOf 64 p.iv) (p.addresses ++ [p.flags]) p.body
    armorAes crypto aesKeys p.bytes =
      (({ p with body := sealing.2 }.withIv sealing.1.1).withMac sealing.1.2).bytes := by
  intro sealing
  unfold armorAes
  dsimp only
  rw [Packet.packetId, Parts.fieldAt_iv, Parts.fieldAt_additional, Parts.drop_body, Parts.take_body,
    Parts.overwrite_iv, Parts.overwrite_mac]

theorem dearmorAes_bytes :
    let opening := gmacSivDecrypt crypto aesKeys (wordOf 64 p.iv, wordOf 64 p.mac)
      (p.addresses ++ [p.flags &&& 0xf8]) p.body
    dearmorAes crypto aesKeys p.bytes = (opening.1, { p with body := opening.2 }.bytes) := by
  intro opening
  unfold dearmorAes
  dsimp only
  rw [Packet.packetId, Packet.trustedPathId, Parts.fieldAt_iv, Parts.fieldAt_mac, Parts.flags_bytes,
    Parts.set_flags, Parts.fieldAt_additional, Parts.drop_body, Parts.take_body]

/-- AES-GMAC-SIV on a plaintext. -/
theorem gmacSivDecrypt_gmacSivEncrypt (lawful : crypto.Lawful) (iv : BitVec 64) (additional input : List Byte) :
    let sealing := gmacSivEncrypt crypto aesKeys iv additional input
    gmacSivDecrypt crypto aesKeys sealing.1 additional sealing.2 = (true, input) := by
  intro sealing
  unfold gmacSivDecrypt
  dsimp only [sealing, gmacSivEncrypt]
  rw [lawful.aesDecrypt_aesEncrypt, xorStream_xorStream]
  simp

/-- AES-GMAC-SIV: the hops are authenticated as zero. -/
theorem aes_restores (lawful : crypto.Lawful) (octet : Byte) (unrelayed : p.flags &&& 0xf8 = p.flags)
    (relayed : octet &&& 0xf8 = p.flags &&& 0xf8) :
    ∃ q : Parts, (armorAes crypto aesKeys p.bytes).set 18 octet = q.bytes ∧
      dearmorAes crypto aesKeys q.bytes = (true, { q with body := p.body }.bytes) ∧
      q.addresses = p.addresses ∧ q.flags = octet ∧ q.body.length = p.body.length := by
  let sealing := gmacSivEncrypt crypto aesKeys (wordOf 64 p.iv) (p.addresses ++ [p.flags]) p.body
  let q : Parts :=
    { ({ p with body := sealing.2 }.withIv sealing.1.1).withMac sealing.1.2 with flags := octet }
  have tag : (wordOf 64 q.iv, wordOf 64 q.mac) = sealing.1 := by
    apply Prod.ext
    · exact wordOf_wordBytes 8 _ (by decide)
    · exact wordOf_wordBytes 8 _ (by decide)
  refine ⟨q, ?_, ?_, rfl, rfl, length_xorStream _ _⟩
  · rw [armorAes_bytes, Parts.set_flags]
  · rw [dearmorAes_bytes, tag]
    change ((gmacSivDecrypt crypto aesKeys sealing.1 (p.addresses ++ [octet &&& 0xf8]) sealing.2).1,
      { q with body := (gmacSivDecrypt crypto aesKeys sealing.1 (p.addresses ++ [octet &&& 0xf8]) sealing.2).2 }.bytes)
        = _
    rw [relayed, unrelayed, gmacSivDecrypt_gmacSivEncrypt crypto aesKeys lawful]

end Suites

section Outer

variable (crypto : Primitives)

/-- The packet under the outer layer: everything behind the flags is encrypted, and a key follows it. -/
def outerParts (p : Parts) (stream : Nat → Byte) (ephemeralKey : List Byte) : Parts :=
  { p with
    mac := (xorStream stream (p.mac ++ p.body)).take 8
    body := (xorStream stream (p.mac ++ p.body)).drop 8 ++ ephemeralKey
    macLength := by
      rw [List.length_take, length_xorStream, List.length_append, p.macLength]
      omega }

theorem outerParts_tail (p : Parts) (stream : Nat → Byte) (ephemeralKey : List Byte) :
    (outerParts p stream ephemeralKey).bytes.drop 19 = xorStream stream (p.mac ++ p.body) ++ ephemeralKey := by
  rw [Parts.drop_mac]
  change (xorStream stream (p.mac ++ p.body)).take 8 ++ ((xorStream stream (p.mac ++ p.body)).drop 8 ++ _) = _
  rw [← List.append_assoc, List.take_append_drop]

theorem outerStart_congr {p q : Parts} (iv : p.iv = q.iv) (addresses : p.addresses = q.addresses) :
    outerStart p.bytes = outerStart q.bytes := by
  have start (r : Parts) : Packet.fieldAt r.bytes 8 4 = r.addresses.take 4 := by
    rw [Packet.fieldAt, Parts.drop_iv, List.take_append_of_le_length (by rw [r.addressesLength]; decide)]
  rw [outerStart, outerStart, Packet.packetId, Packet.packetId, Parts.fieldAt_iv, Parts.fieldAt_iv, start p, start q,
    iv, addresses]

theorem armorOuter_bytes (p : Parts) (ephemeral theirs : BitVec 256)
    (fits : p.bytes.length + ephemeralPublicKeyLen ≤ Packet.maxPacketLength) :
    armorOuter crypto ephemeral theirs p.bytes =
      some (outerParts p (crypto.aesCtr (crypto.agree ephemeral theirs) (outerStart p.bytes))
        (wordBytes ephemeralPublicKeyLen (crypto.calcPubDH ephemeral))).bytes := by
  let stream := crypto.aesCtr (crypto.agree ephemeral theirs) (outerStart p.bytes)
  let ephemeralKey := wordBytes ephemeralPublicKeyLen (crypto.calcPubDH ephemeral)
  have size : (p.bytes.take 19 ++ xorStream stream (p.bytes.drop 19)).length = p.bytes.length := by
    rw [List.length_append, length_xorStream, ← List.length_append, List.take_append_drop]
  have joined : p.bytes.take 19 ++ xorStream stream (p.bytes.drop 19) ++ ephemeralKey =
      (outerParts p stream ephemeralKey).bytes := by
    rw [← List.take_append_drop 19 (outerParts p stream ephemeralKey).bytes, outerParts_tail, Parts.take_mac,
      Parts.take_mac, Parts.drop_mac, List.append_assoc]
    rfl
  unfold armorOuter
  dsimp only
  rw [if_neg (by rw [size]; omega), joined]

theorem armorOuter_overflows (p : Parts) (ephemeral theirs : BitVec 256)
    (long : Packet.maxPacketLength < p.bytes.length + ephemeralPublicKeyLen) :
    armorOuter crypto ephemeral theirs p.bytes = none := by
  unfold armorOuter
  dsimp only
  rw [if_pos]
  rw [List.length_append, length_xorStream, ← List.length_append, List.take_append_drop]
  exact long

/-- The outer layer comes off whatever the hops are by then. -/
theorem dearmorOuter_bytes (lawful : crypto.Lawful) (p : Parts) (ephemeral mine : BitVec 256) (octet : Byte) :
    dearmorOuter crypto mine { outerParts p (crypto.aesCtr (crypto.agree ephemeral (crypto.calcPubDH mine))
        (outerStart p.bytes)) (wordBytes ephemeralPublicKeyLen (crypto.calcPubDH ephemeral))
      with flags := octet }.bytes = { p with flags := octet }.bytes := by
  let stream := crypto.aesCtr (crypto.agree ephemeral (crypto.calcPubDH mine)) (outerStart p.bytes)
  let ephemeralKey := wordBytes ephemeralPublicKeyLen (crypto.calcPubDH ephemeral)
  let q : Parts := { outerParts p stream ephemeralKey with flags := octet }
  have keyLength : ephemeralKey.length = 32 := wordBytes_length _ _
  have tail : q.bytes.drop 19 = xorStream stream (p.mac ++ p.body) ++ ephemeralKey := by
    rw [Parts.drop_mac, ← outerParts_tail, Parts.drop_mac]
  have inner : (xorStream stream (p.mac ++ p.body)).length = 8 + p.body.length := by
    rw [length_xorStream, List.length_append, p.macLength]
  have size : q.bytes.length = 19 + (8 + p.body.length) + 32 := by
    have whole := congrArg List.length tail
    rw [List.length_drop, List.length_append, inner, keyLength] at whole
    omega
  have last : q.bytes.drop (q.bytes.length - 32) = ephemeralKey := by
    rw [show q.bytes.length - 32 = 19 + (8 + p.body.length) by omega, ← List.drop_drop, tail,
      List.drop_left' inner]
  have agreed : crypto.agree mine (wordOf 256 ephemeralKey) = crypto.agree ephemeral (crypto.calcPubDH mine) := by
    rw [wordOf_wordBytes _ _ (by decide), lawful.agree_comm]
  change dearmorOuter crypto mine q.bytes = _
  unfold dearmorOuter
  dsimp only
  rw [last, agreed, tail, show q.bytes.length - 19 - 32 = 8 + p.body.length by omega, List.take_left' inner,
    outerStart_congr (show q.iv = p.iv from rfl) rfl, xorStream_xorStream, Parts.take_mac]
  simp only [Parts.bytes, List.append_assoc]
  rfl

end Outer

/-- The flags octet after a number of relays. -/
theorem nextHop_kept (octet : Byte) (relays : Nat) : nextHop^[relays] octet &&& 0xf8 = octet &&& 0xf8 := by
  have one : ∀ octet : Byte, nextHop octet &&& 0xf8 = octet &&& 0xf8 := by decide
  induction relays generalizing octet with
  | zero => rfl
  | succ relays ih => rw [Function.iterate_succ_apply, ih, one]

theorem incrementHops_bytes (p : Parts) (relays : Nat) :
    incrementHops^[relays] p.bytes = { p with flags := nextHop^[relays] p.flags }.bytes := by
  induction relays generalizing p with
  | zero => rfl
  | succ relays ih =>
      rw [Function.iterate_succ_apply, incrementHops, Parts.flags_bytes, Parts.set_flags, ih]
      rfl

/-- The octet with which a packet leaves: cipher and extended armor are set, the rest is kept. -/
def sentFlags (octet c : Byte) (extended : Bool) : Byte := withCipher (withExtendedArmor octet extended) c

theorem sentFlags_spec {octet received : Byte} {c : Byte} {extended : Bool} (suite : c = 0 ∨ c = 1 ∨ c = 3)
    (relayed : received &&& 0xf8 = sentFlags octet c extended &&& 0xf8) :
    (received &&& 0x38) >>> 3 = c ∧ received &&& 0x40 = octet &&& 0x40 ∧
      decide (received &&& 0x80 ≠ 0) = extended := by
  have masked : ∀ received : Byte, received &&& 0x38 = received &&& 0xf8 &&& 0x38 ∧
      received &&& 0x40 = received &&& 0xf8 &&& 0x40 ∧ received &&& 0x80 = received &&& 0xf8 &&& 0x80 := by decide
  have octets : ∀ extended : Bool, ∀ c ∈ [(0 : Byte), 1, 3], ∀ octet : Byte,
      (sentFlags octet c extended &&& 0xf8 &&& 0x38) >>> 3 = c ∧
        sentFlags octet c extended &&& 0xf8 &&& 0x40 = octet &&& 0x40 ∧
        decide (sentFlags octet c extended &&& 0xf8 &&& 0x80 ≠ 0) = extended := by decide +kernel
  rw [(masked received).1, (masked received).2.1, (masked received).2.2, relayed]
  apply octets extended c
  simpa using suite

theorem prepared_bytes (p : Parts) (c : Byte) (extended : Bool) :
    setCipher (setExtendedArmor p.bytes extended) c = { p with flags := sentFlags p.flags c extended }.bytes := by
  rw [setExtendedArmor, Parts.flags_bytes, Parts.set_flags, setCipher, Parts.flags_bytes, Parts.set_flags]
  rfl

/-- What is restored of a packet in every suite. -/
structure Restored (data plain : List Byte) : Prop where
  verb : Packet.verb plain = Packet.verb data
  payload : plain.drop 28 = data.drop 28
  size : plain.length = data.length
  destination : Packet.destination plain = Packet.destination data
  source : Packet.source plain = Packet.source data
  fragmented : Packet.fragmented plain = Packet.fragmented data

theorem restored_of_parts {p q : Parts} {c : Byte} {extended : Bool} (suite : c = 0 ∨ c = 1 ∨ c = 3)
    (relayed : q.flags &&& 0xf8 = sentFlags p.flags c extended &&& 0xf8) (addresses : q.addresses = p.addresses)
    (body : q.body = p.body) : Restored p.bytes q.bytes ∧ extendedArmor q.bytes = extended := by
  obtain ⟨-, fragmented, marked⟩ := sentFlags_spec suite relayed
  have same : Packet.fieldAt q.bytes 8 10 = Packet.fieldAt p.bytes 8 10 := by
    rw [Parts.fieldAt_addresses, Parts.fieldAt_addresses, addresses]
  have behind : q.bytes.drop 27 = p.bytes.drop 27 := by rw [Parts.drop_body, Parts.drop_body, body]
  have octet (r : Parts) : Packet.byteAt r.bytes 27 = Packet.byteAt (r.bytes.drop 27) 0 := by
    rw [Packet.byteAt, Packet.byteAt, List.getD_eq_getElem?_getD, List.getD_eq_getElem?_getD, List.getElem?_drop]
  constructor
  · constructor
    · rw [Packet.verb, Packet.verb, octet q, octet p, behind]
    · rw [show 28 = 27 + 1 from rfl, ← List.drop_drop, behind, List.drop_drop]
    · rw [Parts.length_bytes, Parts.length_bytes, body]
    · exact (Fragmentation.addresses_congr same).1
    · exact (Fragmentation.addresses_congr same).2.1
    · rw [Packet.fragmented, Packet.fragmented, Parts.flags_bytes, Parts.flags_bytes, fragmented]
  · rw [extendedArmor, Parts.flags_bytes, marked]

/-- `dearmor` on what arrives, by the suite that it was sent with. -/
theorem dearmor_bytes (crypto : Primitives) (receiver : Bool) (key : BitVec 384) (aesKeys : Option AesKeys)
    (privateKey : BitVec 512) {q : Parts} {octet c : Byte} {extended : Bool} (suite : c = 0 ∨ c = 1 ∨ c = 3)
    (relayed : q.flags &&& 0xf8 = sentFlags octet c extended &&& 0xf8)
    (long : 33 ≤ q.body.length ∨ extended = false) :
    dearmor crypto receiver key aesKeys privateKey q.bytes =
      dearmorSuite crypto receiver key aesKeys c
        (if extended = true ∧ c = 0 then dearmorOuter crypto (firstHalf privateKey) q.bytes else q.bytes) := by
  obtain ⟨cipher, -, marked⟩ := sentFlags_spec suite relayed
  have named : Packet.cipher q.bytes = c := by rw [Packet.cipher, Parts.flags_bytes, cipher]
  have layered : extendedArmor q.bytes = extended := by rw [extendedArmor, Parts.flags_bytes, marked]
  unfold dearmor
  dsimp only
  rw [named, layered]
  by_cases outer : extended = true ∧ c = 0
  · have enough : ¬ q.bytes.length < 28 + ephemeralPublicKeyLen := by
      have known : 33 ≤ q.body.length := long.resolve_right (by rw [outer.1]; decide)
      rw [Parts.length_bytes, ephemeralPublicKeyLen]
      omega
    rw [if_pos outer, if_neg enough, if_pos outer]
  · rw [if_neg outer, if_neg outer]

section RoundTrip

variable {crypto : Primitives} (lawful : crypto.Lawful) (sender receiver : Bool) (key : BitVec 384)
  (identity : Identity) (privateKey : BitVec 512) (ephemeral : BitVec 256) (p : Parts) (relays : Nat)

include lawful in
/-- AES-GMAC-SIV on a packet that arrives as `q`. -/
theorem aes_opens (aesKeys : AesKeys) (fresh : p.flags &&& 0x07 = 0) :
    ∃ armored, ∃ q : Parts, armor crypto sender ephemeral key true false (some aesKeys) identity p.bytes = some armored ∧
      incrementHops^[relays] armored = q.bytes ∧
      dearmor crypto receiver key (some aesKeys) privateKey q.bytes = (true, { q with body := p.body }.bytes) ∧
      q.addresses = p.addresses ∧ q.flags = nextHop^[relays] (sentFlags p.flags 3 false) ∧
      q.body.length = p.body.length := by
  let prepared : Parts := { p with flags := sentFlags p.flags 3 false }
  let octet := nextHop^[relays] prepared.flags
  have unrelayed : prepared.flags &&& 0xf8 = prepared.flags := by
    have octets : ∀ octet : Byte, octet &&& 0x07 = 0 → sentFlags octet 3 false &&& 0xf8 = sentFlags octet 3 false := by
      decide
    exact octets p.flags fresh
  have relayed : octet &&& 0xf8 = prepared.flags &&& 0xf8 := nextHop_kept _ _
  obtain ⟨q, arrived, opened, addresses, flags, size⟩ :=
    aes_restores crypto aesKeys prepared lawful octet unrelayed relayed
  rw [← flags] at relayed
  refine ⟨armorAes crypto aesKeys prepared.bytes, q, ?_, ?_, ?_, addresses, flags, size⟩
  · unfold armor
    dsimp only
    rw [prepared_bytes]
    rfl
  · rw [← arrived, armorAes_bytes, incrementHops_bytes, Parts.set_flags]
    rfl
  · rw [dearmor_bytes crypto receiver key _ privateKey (by decide) relayed (.inr rfl)]
    exact opened

/-- The cipher of the suites with Poly1305. -/
def poly1305Cipher (encrypt : Bool) : Byte := if encrypt then 1 else 0

theorem poly1305Cipher_suite (encrypt : Bool) :
    poly1305Cipher encrypt = 0 ∨ poly1305Cipher encrypt = 1 ∨ poly1305Cipher encrypt = 3 := by
  cases encrypt <;> decide

/-- The suites with Poly1305 on a packet that arrives as `q`. -/
theorem poly1305_opens (encrypt : Bool) (aesKeys receiverKeys : Option AesKeys)
    (unused : encrypt = true → aesKeys = none) :
    ∃ armored, ∃ q : Parts, armor crypto sender ephemeral key encrypt false aesKeys identity p.bytes = some armored ∧
      incrementHops^[relays] armored = q.bytes ∧
      dearmor crypto receiver key receiverKeys privateKey q.bytes = (true, { q with body := p.body }.bytes) ∧
      q.iv = p.iv ∧ q.addresses = p.addresses ∧
      q.flags = nextHop^[relays] (sentFlags p.flags (poly1305Cipher encrypt) false) ∧
      q.body.length = p.body.length ∧ (encrypt = false → q.body = p.body) := by
  let prepared : Parts := { p with flags := sentFlags p.flags (poly1305Cipher encrypt) false }
  let octet := nextHop^[relays] prepared.flags
  have relayed : octet &&& 0xf8 = prepared.flags &&& 0xf8 := nextHop_kept _ _
  obtain ⟨q, arrived, opened, iv, addresses, flags, size, clear⟩ :=
    poly1305_restores crypto key prepared encrypt sender receiver octet relayed
  rw [← flags] at relayed
  refine ⟨armorPoly1305 crypto sender key encrypt prepared.bytes, q, ?_, ?_, ?_, iv, addresses, flags, size, clear⟩
  · unfold armor
    dsimp only
    rw [prepared_bytes, prepared_bytes]
    cases encrypt with
    | false => cases aesKeys <;> rfl
    | true =>
        rw [unused rfl]
        rfl
  · rw [← arrived, armorPoly1305_bytes, incrementHops_bytes, Parts.set_flags]
    rfl
  · rw [dearmor_bytes crypto receiver key _ privateKey (poly1305Cipher_suite encrypt) relayed (.inr rfl), ← opened]
    cases encrypt <;> rfl

include lawful in
/-- AES-GMAC-SIV from end to end. -/
theorem aes_round_trip (aesKeys : AesKeys) (fresh : p.flags &&& 0x07 = 0) :
    ∃ armored plain, armor crypto sender ephemeral key true false (some aesKeys) identity p.bytes = some armored ∧
      dearmor crypto receiver key (some aesKeys) privateKey (incrementHops^[relays] armored) = (true, plain) ∧
      Restored p.bytes plain ∧ extendedArmor plain = false := by
  obtain ⟨armored, q, sent, arrived, opened, addresses, flags, -⟩ :=
    aes_opens lawful sender receiver key identity privateKey ephemeral p relays aesKeys fresh
  have relayed : q.flags &&& 0xf8 = sentFlags p.flags 3 false &&& 0xf8 := by rw [flags, nextHop_kept]
  rw [← arrived] at opened
  exact ⟨armored, _, sent, opened,
    restored_of_parts (q := { q with body := p.body }) (by decide) relayed addresses rfl⟩

/-- The suites with Poly1305 and no outer layer. -/
theorem poly1305_round_trip (encrypt : Bool) (aesKeys receiverKeys : Option AesKeys)
    (unused : encrypt = true → aesKeys = none) :
    ∃ armored plain, armor crypto sender ephemeral key encrypt false aesKeys identity p.bytes = some armored ∧
      dearmor crypto receiver key receiverKeys privateKey (incrementHops^[relays] armored) = (true, plain) ∧
      (Restored p.bytes plain ∧ extendedArmor plain = false) ∧ Packet.packetId plain = Packet.packetId p.bytes := by
  obtain ⟨armored, q, sent, arrived, opened, iv, addresses, flags, -, -⟩ := @poly1305_opens crypto sender receiver key
    identity privateKey ephemeral p relays encrypt aesKeys receiverKeys unused
  have relayed : q.flags &&& 0xf8 = sentFlags p.flags (poly1305Cipher encrypt) false &&& 0xf8 := by
    rw [flags, nextHop_kept]
  rw [← arrived] at opened
  refine ⟨armored, _, sent, opened,
    restored_of_parts (q := { q with body := p.body }) (poly1305Cipher_suite encrypt) relayed addresses rfl, ?_⟩
  rw [Packet.packetId, Packet.packetId, Parts.fieldAt_iv, Parts.fieldAt_iv]
  change wordOf 64 q.iv = wordOf 64 p.iv
  rw [iv]

/-- The key stream of the outer layer. -/
def outerStream (crypto : Primitives) (ephemeral : BitVec 256) (identity : Identity) (p : Parts) : Nat → Byte :=
  crypto.aesCtr (crypto.agree ephemeral (firstHalf identity.publicKey)) (outerStart p.bytes)

include lawful in
/-- Poly1305 alone, under the outer layer: the packet as it is sent and as it arrives. -/
theorem outer_opens (aesKeys receiverKeys : Option AesKeys) (some_verb : 0 < p.body.length)
    (ownKey : firstHalf identity.publicKey = crypto.calcPubDH (firstHalf privateKey))
    (fits : p.bytes.length + ephemeralPublicKeyLen ≤ Packet.maxPacketLength) :
    ∃ armored arrived q : Parts,
      armor crypto sender ephemeral key false true aesKeys identity p.bytes = some armored.bytes ∧
      incrementHops^[relays] armored.bytes = arrived.bytes ∧
      dearmor crypto receiver key receiverKeys privateKey arrived.bytes = (true, { q with body := p.body }.bytes) ∧
      (q.iv = p.iv ∧ q.addresses = p.addresses ∧ q.flags = nextHop^[relays] (sentFlags p.flags 0 true)) ∧
      arrived.iv = p.iv ∧ arrived.addresses = p.addresses ∧
      arrived.flags = nextHop^[relays] (sentFlags p.flags 0 true) ∧
      arrived.body = xorStream (fun i => outerStream crypto ephemeral identity p (8 + i)) p.body ++
        wordBytes ephemeralPublicKeyLen (crypto.calcPubDH ephemeral) := by
  let prepared : Parts := { p with flags := sentFlags p.flags 0 true }
  let octet := nextHop^[relays] prepared.flags
  have relayed : octet &&& 0xf8 = prepared.flags &&& 0xf8 := nextHop_kept _ _
  obtain ⟨q, arrived, opened, iv, addresses, flags, -, -⟩ :=
    poly1305_restores crypto key prepared false sender receiver octet relayed
  let body := cryptBody (packetStream crypto key prepared) false prepared.body
  let r : Parts := { prepared with body := body }.withMac (packetMac crypto key prepared body)
  have inner : armorPoly1305 crypto sender key false prepared.bytes = r.bytes := armorPoly1305_bytes _ _ _ _ _
  have size : r.bytes.length = p.bytes.length := by
    rw [Parts.length_bytes, Parts.length_bytes]
    rfl
  let outer := outerParts r (crypto.aesCtr (crypto.agree ephemeral (crypto.calcPubDH (firstHalf privateKey)))
    (outerStart r.bytes)) (wordBytes ephemeralPublicKeyLen (crypto.calcPubDH ephemeral))
  have encrypted : outer.body = xorStream (fun i => outerStream crypto ephemeral identity p (8 + i)) p.body ++
      wordBytes ephemeralPublicKeyLen (crypto.calcPubDH ephemeral) := by
    have stream : crypto.aesCtr (crypto.agree ephemeral (crypto.calcPubDH (firstHalf privateKey))) (outerStart r.bytes) =
        outerStream crypto ephemeral identity p := by
      rw [outerStream, ownKey, show outerStart r.bytes = outerStart p.bytes from outerStart_congr rfl rfl]
    have later := drop_xorStream (outerStream crypto ephemeral identity p) r.mac r.body
    rw [r.macLength, ← stream] at later
    rw [← stream]
    exact congrArg (fun encrypted => encrypted ++ wordBytes ephemeralPublicKeyLen (crypto.calcPubDH ephemeral)) later
  have room : 33 ≤ outer.body.length := by
    have key : ephemeralPublicKeyLen = 32 := rfl
    rw [encrypted, List.length_append, length_xorStream, wordBytes_length]
    omega
  rw [inner, Parts.set_flags] at arrived
  refine ⟨outer, { outer with flags := nextHop^[relays] outer.flags }, q, ?_, incrementHops_bytes outer relays, ?_,
    ⟨iv, addresses, flags⟩, rfl, rfl, rfl, encrypted⟩
  · unfold armor
    dsimp only
    rw [prepared_bytes, prepared_bytes, ownKey]
    rw [← armorOuter_bytes crypto r ephemeral _ (by rw [size]; exact fits), ← inner]
    cases aesKeys <;> rfl
  · have kept : (nextHop^[relays] outer.flags) &&& 0xf8 = sentFlags p.flags 0 true &&& 0xf8 := nextHop_kept _ _
    rw [dearmor_bytes (q := { outer with flags := nextHop^[relays] outer.flags }) crypto receiver
      key _ privateKey (.inl rfl) kept (.inl room), if_pos ⟨rfl, rfl⟩,
      dearmorOuter_bytes crypto lawful r ephemeral (firstHalf privateKey)]
    exact (congrArg _ arrived).trans opened

include lawful in
/-- Poly1305 alone, under the outer layer. -/
theorem outer_round_trip (aesKeys receiverKeys : Option AesKeys) (some_verb : 0 < p.body.length)
    (ownKey : firstHalf identity.publicKey = crypto.calcPubDH (firstHalf privateKey))
    (fits : p.bytes.length + ephemeralPublicKeyLen ≤ Packet.maxPacketLength) :
    ∃ armored plain, armor crypto sender ephemeral key false true aesKeys identity p.bytes = some armored ∧
      dearmor crypto receiver key receiverKeys privateKey (incrementHops^[relays] armored) = (true, plain) ∧
      (Restored p.bytes plain ∧ extendedArmor plain = true) ∧ Packet.packetId plain = Packet.packetId p.bytes := by
  obtain ⟨armored, arrived, q, sent, same, opened, ⟨iv, addresses, flags⟩, -⟩ := outer_opens lawful sender receiver key
    identity privateKey ephemeral p relays aesKeys receiverKeys some_verb ownKey fits
  have relayed : q.flags &&& 0xf8 = sentFlags p.flags 0 true &&& 0xf8 := by rw [flags, nextHop_kept]
  rw [← same] at opened
  refine ⟨armored.bytes, _, sent, opened,
    restored_of_parts (q := { q with body := p.body }) (by decide) relayed addresses rfl, ?_⟩
  rw [Packet.packetId, Packet.packetId, Parts.fieldAt_iv, Parts.fieldAt_iv]
  change wordOf 64 q.iv = wordOf 64 p.iv
  rw [iv]

/-- The ephemeral key has to fit behind the packet. -/
theorem armor_overflows (aesKeys : Option AesKeys)
    (long : Packet.maxPacketLength < p.bytes.length + ephemeralPublicKeyLen) :
    armor crypto sender ephemeral key false true aesKeys identity p.bytes = none := by
  unfold armor
  dsimp only
  rw [prepared_bytes, prepared_bytes]
  have size (body : List Byte) (same : body.length = p.body.length) (word : BitVec 64) (octet : Byte) :
      Packet.maxPacketLength <
        ({ p with body := body, flags := octet }.withMac word).bytes.length + ephemeralPublicKeyLen := by
    rw [Parts.length_bytes, ← same] at long
    rw [Parts.length_bytes]
    exact long
  cases aesKeys with
  | none =>
      dsimp only
      rw [armorPoly1305_bytes]
      exact armorOuter_overflows crypto _ ephemeral _ (size _ (length_cryptBody _ false _) _ _)
  | some aesKeys =>
      dsimp only
      rw [armorPoly1305_bytes]
      exact armorOuter_overflows crypto _ ephemeral _ (size _ (length_cryptBody _ false _) _ _)

end RoundTrip

/-- What the sender armors, the receiver restores, with the flag of extended armor as the sender chose it. Every
number of relays is allowed; it must be zero so far for AES-GMAC-SIV, which authenticates the hops as they are.
The packet id of the other suites is kept. -/
theorem dearmor_restores_armored (crypto : Primitives) (lawful : crypto.Lawful) (sender receiver : Bool)
    (key : BitVec 384) (encryptPayload extended : Bool) (aesKeys receiverKeys : Option AesKeys)
    (ephemeral : BitVec 256) (identity : Identity) (privateKey : BitVec 512) (data : List Byte) (relays : Nat)
    (whole : Packet.minPacketLength ≤ data.length) (layers : ¬ (encryptPayload = true ∧ extended = true))
    (sameKeys : encryptPayload = true → aesKeys ≠ none → receiverKeys = aesKeys)
    (ownKey : firstHalf identity.publicKey = crypto.calcPubDH (firstHalf privateKey))
    (fits : extended = true → data.length + ephemeralPublicKeyLen ≤ Packet.maxPacketLength)
    (fresh : encryptPayload = true → aesKeys ≠ none → hops data = 0) :
    ∃ armored plain, armor crypto sender ephemeral key encryptPayload extended aesKeys identity data = some armored ∧
      dearmor crypto receiver key receiverKeys privateKey (incrementHops^[relays] armored) = (true, plain) ∧
      Restored data plain ∧ extendedArmor plain = extended ∧
      (¬ (encryptPayload = true ∧ aesKeys ≠ none) → Packet.packetId plain = Packet.packetId data) := by
  have long : 27 ≤ data.length := le_trans (by decide) whole
  obtain ⟨p, same⟩ : ∃ p : Parts, p.bytes = data := ⟨Parts.cut data long, Parts.bytes_cut data long⟩
  subst same
  have verb : 0 < p.body.length := by
    rw [Parts.length_bytes, Packet.minPacketLength] at whole
    omega
  cases extended with
  | true =>
      have clear : encryptPayload = false := by
        cases encryptPayload with
        | false => rfl
        | true => exact absurd ⟨rfl, rfl⟩ layers
      subst clear
      obtain ⟨armored, plain, sent, opened, ⟨restored, marked⟩, id⟩ := outer_round_trip lawful sender receiver key
        identity privateKey ephemeral p relays aesKeys receiverKeys verb ownKey (fits rfl)
      exact ⟨armored, plain, sent, opened, restored, marked, fun _ => id⟩
  | false =>
      by_cases aes : encryptPayload = true ∧ aesKeys ≠ none
      · obtain ⟨rfl, used⟩ := aes
        rw [sameKeys rfl used]
        have octet : p.flags &&& 0x07 = 0 := by
          rw [← Parts.flags_bytes]
          exact fresh rfl used
        obtain ⟨keys, rfl⟩ := Option.ne_none_iff_exists'.mp used
        obtain ⟨armored, plain, sent, opened, restored, marked⟩ :=
          aes_round_trip lawful sender receiver key identity privateKey ephemeral p relays keys octet
        exact ⟨armored, plain, sent, opened, restored, marked, fun other => absurd ⟨rfl, used⟩ other⟩
      · have unused : encryptPayload = true → aesKeys = none := fun encrypted =>
          not_not.mp fun used => aes ⟨encrypted, used⟩
        obtain ⟨armored, plain, sent, opened, ⟨restored, marked⟩, id⟩ := @poly1305_round_trip crypto sender receiver
          key identity privateKey ephemeral p relays encryptPayload aesKeys receiverKeys unused
        exact ⟨armored, plain, sent, opened, restored, marked, fun _ => id⟩

section PacketId

variable (crypto : Primitives) (fastCrypto : Bool) (key : BitVec 384) (data : List Byte)

/-- Rewriting the bytes behind the id in place. -/
theorem packetId_rewritten {start : Nat} {rest : List Byte} (behind : 8 ≤ start)
    (inPlace : rest.length ≤ data.length - start) :
    Packet.packetId (data.take start ++ rest) = Packet.packetId data := by
  by_cases long : start ≤ data.length
  · rw [Packet.packetId, Packet.packetId, Packet.fieldAt, Packet.fieldAt, List.drop_zero, List.drop_zero,
      List.take_append_of_le_length (by rw [List.length_take]; omega), List.take_take, Nat.min_eq_left behind]
  · have empty : rest = [] := List.eq_nil_of_length_eq_zero (by omega)
    rw [empty, List.append_nil, List.take_of_length_le (by omega)]

theorem dearmorPoly1305_packetId (decrypt : Bool) :
    Packet.packetId (dearmorPoly1305 crypto fastCrypto key decrypt data).2 = Packet.packetId data := by
  unfold dearmorPoly1305
  cases fastCrypto with
  | true =>
      dsimp only
      rw [if_pos rfl, apply_ite Prod.snd, apply_ite Packet.packetId]
      apply ite_eq_left_iff.mpr
      intro _
      apply packetId_rewritten data (by decide)
      cases decrypt with
      | false => rw [if_neg (by decide), List.length_drop]
      | true =>
          simp only [if_pos, memxor, List.length_append, List.length_zipWith, List.length_take, List.length_drop]
          omega
  | false =>
      dsimp only
      rw [if_neg (by decide), apply_ite Prod.snd, apply_ite Packet.packetId]
      apply ite_eq_left_iff.mpr
      intro _
      apply packetId_rewritten data (by decide)
      cases decrypt <;> simp [Salsa20.crypt12]

theorem dearmorSuite_packetId (aesKeys : Option AesKeys) (cs : Byte) :
    Packet.packetId (dearmorSuite crypto fastCrypto key aesKeys cs data).2 = Packet.packetId data := by
  unfold dearmorSuite
  by_cases aes : cs = 3
  · rw [if_pos aes]
    cases aesKeys with
    | none => rfl
    | some aesKeys =>
        apply packetId_rewritten data (by decide)
        rw [length_xorStream, List.length_drop]
  · rw [if_neg aes]
    by_cases poly1305 : cs = 0 ∨ cs = 1
    · rw [if_pos poly1305]
      exact dearmorPoly1305_packetId crypto fastCrypto key data _
    · rw [if_neg poly1305]

/-- `dearmor` never writes to the packet id, so the queue of received packets may rely on it. -/
theorem dearmor_keepsId (env : RxQueue.Environment) (aesKeys : BitVec 384 → Option AesKeys) (privateKey : BitVec 512) :
    FragmentDelivery.KeepsId
      { env with dearmor := fun key data => dearmor crypto fastCrypto key (aesKeys key) privateKey data } := by
  intro key data
  change Packet.packetId (dearmor crypto fastCrypto key (aesKeys key) privateKey data).2 = Packet.packetId data
  unfold dearmor
  dsimp only
  by_cases layered : extendedArmor data = true ∧ Packet.cipher data = 0
  · rw [if_pos layered]
    by_cases short : data.length < 28 + ephemeralPublicKeyLen
    · rw [if_pos short]
    · rw [if_neg short, dearmorSuite_packetId]
      apply packetId_rewritten data (by decide)
      rw [length_xorStream, List.length_take, List.length_drop]
      omega
  · rw [if_neg layered, dearmorSuite_packetId]

end PacketId

section Software

/-- Words are stored with their least significant byte first. -/
def littleEndian (bytes : List Byte) : Nat := bigEndianValue bytes.reverse

/-- One assignment of `Salsa20::crypt12`: word, summands and rotation. -/
def salsaStep (x : List (BitVec 32)) (step : Nat × Nat × Nat × Nat) : List (BitVec 32) :=
  let (target, first, second, count) := step
  x.set target (x.getD target 0 ^^^ (x.getD first 0 + x.getD second 0).rotateLeft count)

/-- Two rounds. -/
def doubleRound : List (Nat × Nat × Nat × Nat) :=
  [(4, 0, 12, 7), (8, 4, 0, 9), (12, 8, 4, 13), (0, 12, 8, 18),
   (9, 5, 1, 7), (13, 9, 5, 9), (1, 13, 9, 13), (5, 1, 13, 18),
   (14, 10, 6, 7), (2, 14, 10, 9), (6, 2, 14, 13), (10, 6, 2, 18),
   (3, 15, 11, 7), (7, 3, 15, 9), (11, 7, 3, 13), (15, 11, 7, 18),
   (1, 0, 3, 7), (2, 1, 0, 9), (3, 2, 1, 13), (0, 3, 2, 18),
   (6, 5, 4, 7), (7, 6, 5, 9), (4, 7, 6, 13), (5, 4, 7, 18),
   (11, 10, 9, 7), (8, 11, 10, 9), (9, 8, 11, 13), (10, 9, 8, 18),
   (12, 15, 14, 7), (13, 12, 15, 9), (14, 13, 12, 13), (15, 14, 13, 18)]

/-- `Salsa20::init`, with the number of a block as counter. -/
def salsaState (key iv : List Byte) (block : Nat) : List (BitVec 32) :=
  let word (bytes : List Byte) (i : Nat) : BitVec 32 := BitVec.ofNat 32 (littleEndian (Packet.fieldAt bytes i 4))
  [0x61707865, word key 0, word key 4, word key 8, word key 12, 0x3320646e, word iv 0, word iv 4,
   BitVec.ofNat 32 block, BitVec.ofNat 32 (block / 2 ^ 32), 0x79622d32,
   word key 16, word key 20, word key 24, word key 28, 0x6b206574]

/-- The key stream of Salsa20/12. -/
def salsa2012 (key iv : List Byte) (i : Nat) : Byte :=
  let j := salsaState key iv (i / 64)
  let x := (doubleRound ++ doubleRound ++ doubleRound ++ doubleRound ++ doubleRound ++ doubleRound).foldl salsaStep j
  let word := x.getD (i % 64 / 4) 0 + j.getD (i % 64 / 4) 0
  BitVec.ofNat 8 (word.toNat / 256 ^ (i % 4))

/-- The sum over the blocks of 16 bytes, each with a byte 1 behind it. -/
def poly1305Sum (r : Nat) : Nat → List Byte → Nat → Nat
  | 0, _, h => h
  | count + 1, message, h =>
      if message = [] then h
      else poly1305Sum r count (message.drop 16) ((h + littleEndian (message.take 16 ++ [1])) * r % (2 ^ 130 - 5))

/-- `Poly1305::compute`. -/
def poly1305 (key message : List Byte) : Block :=
  let r := littleEndian (key.take 16) &&& 0x0ffffffc0ffffffc0ffffffc0fffffff
  let mac := (poly1305Sum r message.length message 0 + littleEndian (key.drop 16)) % 2 ^ 128
  let bytes := (bigEndian 16 mac).reverse
  (wordOf 64 (bytes.take 8), wordOf 64 (bytes.drop 8))

/-- The primitives of the suites with Poly1305. The others are stand-ins of the same shape. -/
def software : Primitives where
  salsa2012 := salsa2012
  aesCtr := fun key block i => BitVec.ofNat 8 (key.toNat + block.1.toNat + block.2.toNat + i)
  aesEncrypt := fun key block => (block.1 ^^^ key.truncate 64, block.2)
  aesDecrypt := fun key block => (block.1 ^^^ key.truncate 64, block.2)
  gmac := fun key iv pieces => poly1305 (wordBytes 32 key) (wordBytes 8 iv ++ pieces.flatten)
  poly1305 := poly1305
  calcPubDH := fun secret => secret
  agree := fun mine theirs => mine ^^^ theirs

theorem software_lawful : software.Lawful where
  agree_comm := fun mine theirs => BitVec.xor_comm mine theirs
  aesDecrypt_aesEncrypt := by
    intro key block
    change ((block.1 ^^^ key.truncate 64) ^^^ key.truncate 64, block.2) = block
    rw [BitVec.xor_assoc, BitVec.xor_self, BitVec.xor_zero]

end Software

/-- A short packet from node 2 to node 1, and how often it was relayed before. -/
def shortPacket (octet : Byte) : List Byte :=
  [1, 2, 3, 4, 5, 6, 7, 8, 0, 0, 0, 0, 1, 0, 0, 0, 0, 2, octet, 0, 0, 0, 0, 0, 0, 0, 0, 6, 42]

/-- The keys of node 1, as far as they matter to the outer layer. -/
def nodeOne : Identity := ⟨1, 0⟩

theorem nodeOne_key : firstHalf nodeOne.publicKey = software.calcPubDH (firstHalf 0) := by
  dsimp only [nodeOne, software]

theorem shortPacket_restored :
    software.Lawful ∧ Packet.minPacketLength ≤ (shortPacket 0).length ∧
    ∃ armored plain, armor software true 5 77 true false none nodeOne (shortPacket 0) = some armored ∧
      dearmor software false 77 none 0 (incrementHops^[3] armored) = (true, plain) ∧
      Restored (shortPacket 0) plain ∧ extendedArmor plain = false ∧
      (¬ (true = true ∧ (none : Option AesKeys) ≠ none) → Packet.packetId plain = Packet.packetId (shortPacket 0)) :=
  ⟨software_lawful, by decide,
    dearmor_restores_armored software software_lawful true false 77 true false none none 5 nodeOne 0 (shortPacket 0) 3
      (by decide) (by decide) (fun _ used => absurd rfl used) nodeOne_key (fun wrong => nomatch wrong)
      (fun _ used => absurd rfl used)⟩

/-- Extended armor leaves its flag behind, a packet that was relayed before is refused under AES-GMAC-SIV, and a
packet without room for the ephemeral key is not armored. -/
theorem armor_not_undone :
    (∃ armored plain, armor software false 5 77 false true none nodeOne (shortPacket 0) = some armored ∧
      dearmor software false 77 none 0 armored = (true, plain) ∧
      extendedArmor plain = true ∧ extendedArmor (shortPacket 0) = false) ∧
    (armor software false 5 77 true false (some (2 ^ 200, 4)) nodeOne (shortPacket 1)).map
      (fun armored => (dearmor software false 77 (some (2 ^ 200, 4)) 0 armored).1) = some false ∧
    armor software false 5 77 false true none nodeOne (List.replicate 10024 0) = none := by
  have cut : (Parts.cut (shortPacket 0) (by decide)).bytes = shortPacket 0 := Parts.bytes_cut _ _
  have large : 27 ≤ (List.replicate 10024 (0 : Byte)).length := by rw [List.length_replicate]; decide
  refine ⟨?_, by decide +kernel, ?_⟩
  · obtain ⟨armored, plain, sent, opened, ⟨-, marked⟩, -⟩ := outer_round_trip software_lawful false false 77 nodeOne 0 5
      (Parts.cut (shortPacket 0) (by decide)) 0 none none (by decide) nodeOne_key (by rw [cut]; decide)
    rw [cut] at sent
    exact ⟨armored, plain, sent, opened, marked, by decide⟩
  · rw [← Parts.bytes_cut _ large]
    apply armor_overflows
    rw [Parts.bytes_cut, List.length_replicate]
    decide

end ZeroTierNode.Armor
