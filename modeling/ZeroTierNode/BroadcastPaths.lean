import ZeroTierNode.Armor
import ZeroTierNode.FragmentLimits

/-!
One packet over several paths. `_trySend` hands the same `Packet` to
`_sendViaSpecificPath` for every live path, and what a path did to it is still
there for the next one: the fragmented flag, the trusted path id in place of the
MAC, and the encryption.
-/

namespace ZeroTierNode.BroadcastPaths
open Library.Bytes Library.Ciphers Armor Fragmentation FragmentLimits

/-- `isEncrypted`: Salsa20/12 or AES-GMAC-SIV. -/
def isEncrypted (data : List Byte) : Bool := Packet.cipher data = 1 ∨ Packet.cipher data = 3

def setTrusted (data : List Byte) (tpid : BitVec 64) : List Byte := overwrite (setCipher data 2) 19 (wordBytes 8 tpid)

/-- A live path: the MTU and the trusted path id configured for the physical network that it is in, and the MTU of
its link. -/
structure LivePath where
  configuration : Option (Int × BitVec 64)
  userSpecifiedMtu : BitVec 16

def LivePath.mtu (path : LivePath) : Nat := pathMtu (path.configuration.map Prod.fst) path.userSpecifiedMtu

/-- The id that `getOutboundPathInfo` leaves behind; zero is not a valid one. -/
def LivePath.trustedPathId (path : LivePath) : BitVec 64 := (path.configuration.map Prod.snd).getD 0

/-- The two ends: the sender's view of its peer, and what the peer has for itself. -/
structure Ends where
  crypto : Primitives
  key : BitVec 384
  aesKeys : AesKeys
  /-- The protocol version of the peer. -/
  vProto : BitVec 16
  identity : Identity
  ephemeral : BitVec 256
  privateKey : BitVec 512
  /-- Whether each end has a single-pass key stream. -/
  senderFast : Bool
  receiverFast : Bool

namespace Ends

variable (ends : Ends) (encrypt : Bool)

def aesKeysIfSupported : Option AesKeys := if 12 ≤ ends.vProto.toNat then some ends.aesKeys else none

/-- What a path does to a packet whose fragmented flag is set. -/
def secure (trustedPathId : BitVec 64) (packet : List Byte) : List Byte :=
  if trustedPathId ≠ 0 then setTrusted packet trustedPathId
  else if isEncrypted packet then packet
  else
    (armor ends.crypto ends.senderFast ends.ephemeral ends.key encrypt false ends.aesKeysIfSupported ends.identity
      packet).getD packet

/-- The packet that a path sends, and leaves behind. -/
def sentOver (path : LivePath) (packet : List Byte) : List Byte :=
  outgoing (ends.secure encrypt path.trustedPathId) path.mtu packet

/-- The loop of `_trySend` over the live paths: the datagrams of each one. -/
def broadcast : List LivePath → List Byte → List (List (List Byte))
  | [], _ => []
  | path :: rest, packet =>
      sendViaSpecificPath (ends.secure encrypt path.trustedPathId) path.mtu packet ::
        broadcast rest (ends.sentOver encrypt path packet)

end Ends

/-- The packet made of a head and its fragments; `onRemotePacket` has to accept them. -/
def reassemble : List (List Byte) → Option (List Byte)
  | [] => none
  | head :: fragments =>
      if Packet.isFragment head ∨ head.length < Packet.minPacketLength then none
      else if Packet.fragmented head then
        if fragments.all RxQueue.saneFragment then some (head ++ fragments.flatMap Packet.payload) else none
      else some head

/-- The branches of `tryDecode` on what the peer receives, which has the same id configured for the path. A HELLO in
the clear is no frame. -/
def Ends.accept (ends : Ends) (path : LivePath) (data : List Byte) : Option (List Byte) :=
  if Packet.cipher data = 2 then
    if Packet.trustedPathId data = path.trustedPathId then some data else none
  else if Packet.cipher data = 0 ∧ Packet.verb data = 1 then none
  else
    let (authentic, plain) :=
      dearmor ends.crypto ends.receiverFast ends.key (some ends.aesKeys) ends.privateKey data
    if authentic then some plain else none

/-- The peer accepts what was sent over a path, and gets the verb with its flags and the payload. -/
def Ends.Delivered (ends : Ends) (packet : List Byte) (path : LivePath) (datagrams : List (List Byte)) : Prop :=
  ∃ whole plain, reassemble datagrams = some whole ∧ ends.accept path whole = some plain ∧
    plain.drop 27 = packet.drop 27

/-- A frame as it is handed to `_trySend`. -/
structure Frame (packet : List Byte) : Prop where
  long : Packet.minPacketLength ≤ packet.length
  fits : packet.length ≤ Packet.maxPacketLength
  notReserved : Packet.byteAt packet 13 ≠ 0xff
  verb : Packet.verb packet = 6 ∨ Packet.verb packet = 7
  fresh : hops packet = 0
  clear : isEncrypted packet = false

/-- The packet is one datagram, or a head as long as a packet's header with up to six fragments. -/
def Carries (mtu size : Nat) : Prop := size ≤ mtu ∨ (28 ≤ mtu ∧ size ≤ mtu + 6 * (mtu - 16))

/-- After a path that armors a packet, there are only paths that want it armored and fragmented alike. -/
def SharesArmor (size : Nat) (earlier later : LivePath) : Prop :=
  earlier.trustedPathId = 0 → later.trustedPathId = 0 ∧ (earlier.mtu < size ↔ later.mtu < size)

section Reassembly

theorem fragmentCounts_mod (number total : Nat) : fragmentCounts number total = fragmentCounts number (total % 16) := by
  have low (n : Nat) : n &&& 0xf = n % 16 := Nat.and_two_pow_sub_one_eq_mod n 4
  unfold fragmentCounts
  rw [low total, low (total % 16), Nat.mod_mod]

variable {mtu : Nat} {p : List Byte} (long : Packet.minPacketLength ≤ p.length) (least : 28 ≤ mtu)
  (large : mtu < p.length) (fits : p.length ≤ Packet.maxPacketLength)

include long in
theorem fragmentNumber_fragmentOf {number : Nat} (small : number < 16) :
    Packet.fragmentNumber (fragmentOf p mtu number) = number ∧
      Packet.totalFragments (fragmentOf p mtu number) = totalFragments mtu p.length % 16 := by
  obtain ⟨-, -, -, counts, -⟩ := @fragmentOf_fields p mtu long number
  rw [Packet.fragmentNumber, Packet.totalFragments, counts, fragmentCounts_mod]
  exact fragmentCounts_decode small (Nat.mod_lt _ (by decide))

include long least large in
/-- The seventh fragment is the first that is not accepted. -/
theorem saneFragment_iff : ((List.range' 1 (totalFragments mtu p.length - 1)).map (fragmentOf p mtu)).all
      RxQueue.saneFragment = true ↔ p.length ≤ mtu + 6 * (mtu - 16) := by
  have room : fragmentRoom mtu = mtu - 16 := fragmentRoom_eq least
  have count := @totalFragments_le_iff mtu p.length 6 (fragmentRoom_pos least) large
  obtain ⟨several, -, -⟩ := @totalFragments_bounds mtu p.length (fragmentRoom_pos least) large
  have limit : Packet.maxPacketFragments = 7 := rfl
  rw [room] at count
  rw [← count, List.all_eq_true]
  constructor
  · intro sane
    by_contra many
    have seventh : fragmentOf p mtu 7 ∈ (List.range' 1 (totalFragments mtu p.length - 1)).map (fragmentOf p mtu) := by
      apply List.mem_map_of_mem
      rw [List.mem_range'_1]
      omega
    have small := of_decide_eq_true (sane _ seventh)
    rw [(@fragmentNumber_fragmentOf mtu p long 7 (by decide)).1] at small
    omega
  · intro few fragment sent
    obtain ⟨number, inside, rfl⟩ := List.mem_map.mp sent
    rw [List.mem_range'_1] at inside
    obtain ⟨named, total⟩ := @fragmentNumber_fragmentOf mtu p long number (by omega)
    unfold RxQueue.saneFragment
    rw [named, total, decide_eq_true_iff]
    omega

include long least large in
/-- The payloads of the fragments continue the head. -/
theorem payloads_join : p.take mtu ++ ((List.range' 1 (totalFragments mtu p.length - 1)).map
    (fragmentOf p mtu)).flatMap Packet.payload = p := by
  obtain ⟨-, covers, -⟩ := totalFragments_covers (p := p) least large
  have start : fragmentStart mtu 1 = mtu := by simp [fragmentStart]
  have joined := @fragments_join p mtu (totalFragments mtu p.length - 1) 1 (le_refl 1) (by rw [start]; exact covers)
  rw [start] at joined
  have payloads : ∀ number, Packet.payload (fragmentOf p mtu number) =
      Packet.fieldAt p (fragmentStart mtu number) (fragmentLength p mtu number) := fun number =>
    (fragmentOf_fields long number).2.2.2.2
  rw [List.flatMap_map]
  simp only [payloads]
  exact joined

include long fits in
/-- What is put together is the packet that was sent, if it is put together at all. -/
theorem reassemble_transmit (notReserved : Packet.byteAt p 13 ≠ 0xff)
    (flagged : Packet.fragmented p = decide (mtu < p.length)) (whole : List Byte) :
    reassemble (transmit mtu p) = some whole ↔ whole = p ∧ Carries mtu p.length := by
  have long' : 28 ≤ p.length := long
  by_cases large : mtu < p.length
  · by_cases least : 28 ≤ mtu
    · have head (position : Nat) (inside : position < 28) :
          Packet.byteAt (p.take mtu) position = Packet.byteAt p position := by
        rw [Packet.byteAt, Packet.byteAt, List.getD_eq_getElem?_getD, List.getD_eq_getElem?_getD,
          List.getElem?_take_of_lt (by omega)]
      have size : (p.take mtu).length = mtu := by
        rw [List.length_take]
        omega
      have ordinary : ¬ (Packet.isFragment (p.take mtu) = true ∨ (p.take mtu).length < Packet.minPacketLength) := by
        rw [Packet.isFragment, head 13 (by decide), decide_eq_true_iff, size]
        exact not_or.mpr ⟨notReserved, not_lt.mpr least⟩
      have marked : Packet.fragmented (p.take mtu) = true := by
        rw [decide_eq_true large] at flagged
        rw [← flagged, Packet.fragmented, Packet.fragmented, Packet.flags, Packet.flags, head 18 (by decide)]
      have sane := saneFragment_iff long least large
      rw [transmit_fragmented least large fits, reassemble, if_neg ordinary, if_pos marked, payloads_join long least large]
      by_cases small : p.length ≤ mtu + 6 * (mtu - 16)
      · rw [if_pos (sane.mpr small), Option.some.injEq]
        exact ⟨fun same => ⟨same.symm, Or.inr ⟨least, small⟩⟩, fun same => same.1.symm⟩
      · rw [if_neg (fun all => small (sane.mp all))]
        constructor
        · intro wrong
          cases wrong
        · intro carried
          unfold Carries at carried
          omega
    · have short : (p.take mtu).length < Packet.minPacketLength := by
        have header : Packet.minPacketLength = 28 := rfl
        rw [List.length_take]
        omega
      rw [transmit]
      dsimp only
      rw [Nat.min_eq_right (le_of_lt large), reassemble, if_pos (Or.inr short)]
      constructor
      · intro wrong
        cases wrong
      · intro carried
        unfold Carries at carried
        omega
  · have ordinary : ¬ (Packet.isFragment p = true ∨ p.length < Packet.minPacketLength) := by
      rw [Packet.isFragment, decide_eq_true_iff]
      exact not_or.mpr ⟨notReserved, not_lt.mpr long⟩
    rw [decide_eq_false large] at flagged
    rw [transmit_whole large, reassemble, if_neg ordinary, if_neg (by rw [flagged]; decide), Option.some.injEq]
    exact ⟨fun same => ⟨same.symm, Or.inl (by omega)⟩, fun same => same.1.symm⟩

end Reassembly

section Octets

/-- `setFragmented` on the flags octet. -/
def withFragmented (octet : Byte) (f : Bool) : Byte := if f then octet ||| 0x40 else octet &&& 0xbf

theorem setFragmented_bytes (p : Parts) (f : Bool) :
    setFragmented p.bytes f = { p with flags := withFragmented p.flags f }.bytes := by
  rw [setFragmented, Parts.flags_bytes, Parts.set_flags]
  rfl

theorem setTrusted_bytes (p : Parts) (tpid : BitVec 64) :
    setTrusted p.bytes tpid = ({ p with flags := withCipher p.flags 2 }.withMac tpid).bytes := by
  rw [setTrusted, setCipher, Parts.flags_bytes, Parts.set_flags, Parts.overwrite_mac]

theorem isEncrypted_bytes (p : Parts) :
    isEncrypted p.bytes = decide ((p.flags &&& 0x38) >>> 3 = 1 ∨ (p.flags &&& 0x38) >>> 3 = 3) := by
  rw [isEncrypted, Packet.cipher, Parts.flags_bytes]

/-- The flag is the only bit that `setFragmented` writes. -/
theorem withFragmented_spec (octet : Byte) (f : Bool) :
    withFragmented octet f &&& 0x07 = octet &&& 0x07 ∧ withFragmented octet f &&& 0x38 = octet &&& 0x38 ∧
      decide (withFragmented octet f &&& 0x40 ≠ 0) = f := by
  revert octet f
  decide

theorem withFragmented_same (octet : Byte) {f : Bool} (same : decide (octet &&& 0x40 ≠ 0) = f) :
    withFragmented octet f = octet := by
  revert octet f
  decide

theorem withCipher_spec (octet : Byte) :
    withCipher octet 2 &&& 0x07 = octet &&& 0x07 ∧ (withCipher octet 2 &&& 0x38) >>> 3 = 2 ∧
      withCipher octet 2 &&& 0x40 = octet &&& 0x40 := by
  revert octet
  decide

/-- Hops and fragmented flag of a packet are sent as they were; the rest of the octet is the suite. -/
theorem sentFlags_congr {first second : Byte} (hops : first &&& 0x07 = second &&& 0x07)
    (fragmented : first &&& 0x40 = second &&& 0x40) (c : Byte) :
    sentFlags first c false = sentFlags second c false := by
  have kept : ∀ octet : Byte, octet &&& 0x7f &&& 0xc7 = ((octet &&& 0x07) ||| (octet &&& 0x40)) &&& 0xc7 := by decide
  have split (octet : Byte) : sentFlags octet c false = withCipher ((octet &&& 0x07) ||| (octet &&& 0x40)) c :=
    congrArg (fun rest : Byte => rest ||| ((c <<< 3) &&& 0x38)) (kept octet)
  rw [split first, split second, hops, fragmented]

end Octets

section Canonical

variable {p q : Parts} (iv : q.iv = p.iv) (addresses : q.addresses = p.addresses) (body : q.body = p.body)
  (hops : q.flags &&& 0x07 = p.flags &&& 0x07) (fragmented : q.flags &&& 0x40 = p.flags &&& 0x40)

include iv addresses body hops fragmented

/-- `armor` writes the MAC and does not read it. -/
theorem armor_congr (crypto : Primitives) (fastCrypto : Bool) (ephemeral : BitVec 256) (key : BitVec 384)
    (encrypt : Bool) (aesKeys : Option AesKeys) (identity : Identity) :
    armor crypto fastCrypto ephemeral key encrypt false aesKeys identity q.bytes =
      armor crypto fastCrypto ephemeral key encrypt false aesKeys identity p.bytes := by
  have flags (c : Byte) : sentFlags q.flags c false = sentFlags p.flags c false := sentFlags_congr hops fragmented c
  have poly1305 (encrypt : Bool) (c : Byte) :
      armorPoly1305 crypto fastCrypto key encrypt { q with flags := sentFlags q.flags c false }.bytes =
        armorPoly1305 crypto fastCrypto key encrypt { p with flags := sentFlags p.flags c false }.bytes := by
    have stream : packetStream crypto key { q with flags := sentFlags q.flags c false } =
        packetStream crypto key { p with flags := sentFlags p.flags c false } := by
      unfold packetStream
      rw [salsa20MangleKey_congr key (p := { q with flags := sentFlags q.flags c false })
        (q := { p with flags := sentFlags p.flags c false }) iv addresses
        (congrArg (fun octet => octet &&& 0xf8) (flags c)) (congrArg List.length body)]
      exact congrArg _ iv
    rw [armorPoly1305_bytes, armorPoly1305_bytes]
    unfold packetMac
    rw [stream]
    simp only [Parts.bytes, Parts.withMac, iv, addresses, body, flags c]
  have aes (aesKeys : AesKeys) (c : Byte) :
      armorAes crypto aesKeys { q with flags := sentFlags q.flags c false }.bytes =
        armorAes crypto aesKeys { p with flags := sentFlags p.flags c false }.bytes := by
    rw [armorAes_bytes, armorAes_bytes]
    simp only [Parts.bytes, Parts.withMac, Parts.withIv, iv, addresses, body, flags c]
  unfold armor
  dsimp only
  simp only [prepared_bytes]
  cases aesKeys with
  | none => cases encrypt <;> simp only [poly1305]
  | some aesKeys => cases encrypt <;> simp only [poly1305, aes]

end Canonical

namespace Ends

variable (ends : Ends)

/-- The cipher of a packet that is armored for the peer. -/
def suite (encrypt : Bool) : Byte := if encrypt then if 12 ≤ ends.vProto.toNat then 3 else 1 else 0

theorem suite_cases (encrypt : Bool) : ends.suite encrypt = 0 ∨ ends.suite encrypt = 1 ∨ ends.suite encrypt = 3 := by
  unfold suite
  split_ifs <;> decide

/-- The packet as a path armors it that does, or does not, need fragments. -/
def armored (encrypt : Bool) (packet : List Byte) (f : Bool) : List Byte :=
  ends.secure encrypt 0 (setFragmented packet f)

/-- The cipher at its work on a packet: its MAC does not fit the other value of the fragmented flag, and the
ciphertext is not the plaintext. -/
structure Separates (packet : List Byte) : Prop where
  mac : ∀ f, (dearmor ends.crypto ends.receiverFast ends.key (some ends.aesKeys) ends.privateKey
    (setFragmented (ends.armored true packet f) (!f))).1 = false
  ciphertext : ∀ f, (ends.armored true packet f).drop 27 ≠ packet.drop 27

end Ends

/-- A packet that was not encrypted on the way to this path. -/
structure Unsealed (p q : Parts) : Prop where
  iv : q.iv = p.iv
  addresses : q.addresses = p.addresses
  body : q.body = p.body
  hops : q.flags &&& 0x07 = 0
  clear : isEncrypted q.bytes = false

/-- A packet as a path armored it. -/
structure Sealed (ends : Ends) (encrypt : Bool) (p : Parts) (f : Bool) (q : Parts) : Prop where
  bytes : ends.armored encrypt p.bytes f = q.bytes
  opened : dearmor ends.crypto ends.receiverFast ends.key (some ends.aesKeys) ends.privateKey q.bytes =
    (true, { q with body := p.body }.bytes)
  addresses : q.addresses = p.addresses
  flags : q.flags = sentFlags (withFragmented p.flags f) (ends.suite encrypt) false
  size : q.body.length = p.body.length
  clear : encrypt = false → q.iv = p.iv ∧ q.body = p.body

section Paths

variable {ends : Ends} (lawful : ends.crypto.Lawful) {encrypt : Bool} {p q : Parts} {path : LivePath}

theorem unsealed_refl (frame : Frame p.bytes) : Unsealed p p :=
  ⟨rfl, rfl, rfl, by rw [← Parts.flags_bytes]; exact frame.fresh, frame.clear⟩

theorem fragmented_bytes (q : Parts) : Packet.fragmented q.bytes = decide (q.flags &&& 0x40 ≠ 0) := by
  rw [Packet.fragmented, Parts.flags_bytes]

theorem sentOver_eq (path : LivePath) (packet : List Byte) : ends.sentOver encrypt path packet =
    ends.secure encrypt path.trustedPathId (setFragmented packet (decide (path.mtu < packet.length))) := by
  have needed : (min packet.length path.mtu < packet.length) = (path.mtu < packet.length) := by
    rw [eq_iff_iff]
    omega
  rw [Ends.sentOver, outgoing]
  simp only [needed]

/-- The packet that a trusted path makes of another one. -/
def overTrusted (q : Parts) (f : Bool) (tpid : BitVec 64) : Parts :=
  { q with flags := withCipher (withFragmented q.flags f) 2 }.withMac tpid

theorem sent_trusted (size : q.bytes.length = p.bytes.length) (trusted : path.trustedPathId ≠ 0) :
    ends.sentOver encrypt path q.bytes =
      (overTrusted q (decide (path.mtu < p.bytes.length)) path.trustedPathId).bytes := by
  rw [sentOver_eq, size, setFragmented_bytes, Ends.secure, if_pos trusted, setTrusted_bytes]
  rfl

theorem overTrusted_fields (q : Parts) (f : Bool) (tpid : BitVec 64) :
    Packet.cipher (overTrusted q f tpid).bytes = 2 ∧ Packet.trustedPathId (overTrusted q f tpid).bytes = tpid ∧
      Packet.fragmented (overTrusted q f tpid).bytes = f := by
  obtain ⟨-, cipher, flag⟩ := withCipher_spec (withFragmented q.flags f)
  have flags : (overTrusted q f tpid).flags = withCipher (withFragmented q.flags f) 2 := rfl
  refine ⟨?_, ?_, ?_⟩
  · rw [Packet.cipher, Parts.flags_bytes, flags, cipher]
  · rw [Packet.trustedPathId, Parts.fieldAt_mac]
    exact wordOf_wordBytes 8 _ (by decide)
  · rw [fragmented_bytes, flags, flag]
    exact (withFragmented_spec q.flags f).2.2

/-- Over a trusted path the packet stays what it was. -/
theorem overTrusted_unsealed (unsealed : Unsealed p q) (f : Bool) (tpid : BitVec 64) :
    Unsealed p (overTrusted q f tpid) := by
  refine ⟨unsealed.iv, unsealed.addresses, unsealed.body, ?_, ?_⟩
  · change withCipher (withFragmented q.flags f) 2 &&& 0x07 = 0
    rw [(withCipher_spec _).1, (withFragmented_spec _ _).1, unsealed.hops]
  · rw [isEncrypted, (overTrusted_fields q f tpid).1]
    decide

theorem overTrusted_accepted (q : Parts) (f : Bool) :
    ends.accept path (overTrusted q f path.trustedPathId).bytes = some (overTrusted q f path.trustedPathId).bytes := by
  obtain ⟨cipher, tpid, -⟩ := overTrusted_fields q f path.trustedPathId
  rw [Ends.accept, if_pos cipher, if_pos tpid]

include lawful in
/-- What is armored for the peer, the peer opens, whatever the number of relays. -/
theorem armor_opens (encrypt : Bool) (r : Parts) (relays : Nat) (fresh : r.flags &&& 0x07 = 0) :
    ∃ armored, ∃ q : Parts, armor ends.crypto ends.senderFast ends.ephemeral ends.key encrypt false
        ends.aesKeysIfSupported ends.identity r.bytes = some armored ∧
      incrementHops^[relays] armored = q.bytes ∧
      dearmor ends.crypto ends.receiverFast ends.key (some ends.aesKeys) ends.privateKey q.bytes =
        (true, { q with body := r.body }.bytes) ∧
      q.addresses = r.addresses ∧ q.flags = nextHop^[relays] (sentFlags r.flags (ends.suite encrypt) false) ∧
      q.body.length = r.body.length ∧ (ends.suite encrypt ≠ 3 → q.iv = r.iv) ∧
      (encrypt = false → q.iv = r.iv ∧ q.body = r.body) := by
  by_cases aes : encrypt = true ∧ 12 ≤ ends.vProto.toNat
  · obtain ⟨rfl, recent⟩ := aes
    obtain ⟨armored, q, sent, arrived, opened, addresses, flags, size⟩ := aes_opens lawful ends.senderFast
      ends.receiverFast ends.key ends.identity ends.privateKey ends.ephemeral r relays ends.aesKeys fresh
    have suite : ends.suite true = 3 := by rw [Ends.suite, if_pos rfl, if_pos recent]
    refine ⟨armored, q, ?_, arrived, opened, addresses, ?_, size, (fun other => absurd suite other),
      (fun wrong => nomatch wrong)⟩
    · rw [Ends.aesKeysIfSupported, if_pos recent, sent]
    · rw [flags, suite]
  · have unused : encrypt = true → ends.aesKeysIfSupported = none := by
      intro encrypted
      rw [Ends.aesKeysIfSupported, if_neg (fun recent => aes ⟨encrypted, recent⟩)]
    have suite : ends.suite encrypt = poly1305Cipher encrypt := by
      unfold Ends.suite poly1305Cipher
      cases encrypt with
      | false => rfl
      | true => rw [if_neg (fun recent => aes ⟨rfl, recent⟩)]
    obtain ⟨armored, q, sent, arrived, opened, iv, addresses, flags, size, clear⟩ := @poly1305_opens ends.crypto
      ends.senderFast ends.receiverFast ends.key ends.identity ends.privateKey ends.ephemeral r relays encrypt
      ends.aesKeysIfSupported (some ends.aesKeys) unused
    rw [← suite] at flags
    exact ⟨armored, q, sent, arrived, opened, addresses, flags, size, fun _ => iv, fun plain => ⟨iv, clear plain⟩⟩

/-- The fragmented flag and the encryption do not depend on each other. -/
theorem isEncrypted_setFragmented (q : Parts) (f : Bool) : isEncrypted (setFragmented q.bytes f) = isEncrypted q.bytes := by
  rw [setFragmented_bytes, isEncrypted_bytes, isEncrypted_bytes]
  exact congrArg (fun octet : Byte => decide (octet >>> 3 = 1 ∨ octet >>> 3 = 3)) (withFragmented_spec q.flags f).2.1

/-- `armor` is invoked on a packet that is not encrypted. -/
theorem armored_eq (clear : isEncrypted q.bytes = false) (f : Bool) : ends.armored encrypt q.bytes f =
    (armor ends.crypto ends.senderFast ends.ephemeral ends.key encrypt false ends.aesKeysIfSupported ends.identity
      (setFragmented q.bytes f)).getD (setFragmented q.bytes f) := by
  rw [Ends.armored, Ends.secure, if_neg (not_not.mpr rfl), isEncrypted_setFragmented, clear, if_neg (by decide)]

include lawful in
theorem armored_sealed (frame : Frame p.bytes) (encrypt f : Bool) : ∃ q, Sealed ends encrypt p f q := by
  have fresh : withFragmented p.flags f &&& 0x07 = 0 := by
    rw [(withFragmented_spec p.flags f).1, (unsealed_refl frame).hops]
  obtain ⟨armored, q, sent, arrived, opened, addresses, flags, size, -, clear⟩ :=
    armor_opens lawful encrypt { p with flags := withFragmented p.flags f } 0 fresh
  refine ⟨q, ?_, opened, addresses, flags, size, clear⟩
  rw [armored_eq frame.clear, setFragmented_bytes, sent, Option.getD_some]
  exact arrived

include lawful in
/-- Over any other path it is armored as if this were the first path. -/
theorem sent_armored (frame : Frame p.bytes) (unsealed : Unsealed p q) (untrusted : path.trustedPathId = 0) :
    ends.sentOver encrypt path q.bytes = ends.armored encrypt p.bytes (decide (path.mtu < p.bytes.length)) := by
  let f := decide (path.mtu < p.bytes.length)
  have size : q.bytes.length = p.bytes.length := by rw [Parts.length_bytes, Parts.length_bytes, unsealed.body]
  obtain ⟨hops, -, marked⟩ := withFragmented_spec q.flags f
  obtain ⟨firstHops, -, firstMarked⟩ := withFragmented_spec p.flags f
  have flag : withFragmented q.flags f &&& 0x40 = withFragmented p.flags f &&& 0x40 := by
    have octets : ∀ octet : Byte, octet &&& 0x40 = if decide (octet &&& 0x40 ≠ 0) then 0x40 else 0 := by decide
    rw [octets (withFragmented q.flags f), octets (withFragmented p.flags f), marked, firstMarked]
  have same := @armor_congr { p with flags := withFragmented p.flags f } { q with flags := withFragmented q.flags f }
    unsealed.iv unsealed.addresses unsealed.body
    (by rw [hops, firstHops, unsealed.hops, (unsealed_refl frame).hops]) flag ends.crypto ends.senderFast
    ends.ephemeral ends.key encrypt ends.aesKeysIfSupported ends.identity
  obtain ⟨r, -, sent, -⟩ := armor_opens lawful encrypt { p with flags := withFragmented p.flags f } 0
    (by rw [firstHops, (unsealed_refl frame).hops])
  rw [sentOver_eq, size, untrusted, ← Ends.armored, armored_eq unsealed.clear, armored_eq frame.clear,
    setFragmented_bytes, setFragmented_bytes, same, sent, Option.getD_some, Option.getD_some]

/-- Delivery over a path is that of the packet, and the peer's opinion of it. -/
theorem delivered_iff (frame : Frame p.bytes) {r : Parts} (addresses : r.addresses = p.addresses)
    (size : r.body.length = p.body.length)
    (flagged : Packet.fragmented r.bytes = decide (path.mtu < p.bytes.length)) :
    ends.Delivered p.bytes path (transmit path.mtu r.bytes) ↔
      Carries path.mtu p.bytes.length ∧ ∃ plain, ends.accept path r.bytes = some plain ∧ plain.drop 27 = p.body := by
  have length : r.bytes.length = p.bytes.length := by rw [Parts.length_bytes, Parts.length_bytes, size]
  have source : Packet.byteAt r.bytes 13 = Packet.byteAt p.bytes 13 := by
    apply (addresses_congr ?_).2.2
    rw [Parts.fieldAt_addresses, Parts.fieldAt_addresses, addresses]
  have whole := @reassemble_transmit path.mtu r.bytes (by rw [length]; exact frame.long)
    (by rw [length]; exact frame.fits) (by rw [source]; exact frame.notReserved) (by rw [length]; exact flagged)
  rw [length] at whole
  rw [Ends.Delivered, Parts.drop_body]
  constructor
  · rintro ⟨data, plain, joined, accepted, same⟩
    obtain ⟨rfl, carried⟩ := (whole data).mp joined
    exact ⟨carried, plain, accepted, same⟩
  · rintro ⟨carried, plain, accepted, same⟩
    exact ⟨r.bytes, plain, (whole _).mpr ⟨rfl, carried⟩, accepted, same⟩

variable {f : Bool} (isSealed : Sealed ends encrypt p f q)

include isSealed

theorem sealed_cipher : Packet.cipher q.bytes = ends.suite encrypt ∧ Packet.fragmented q.bytes = f := by
  have octet : q.flags &&& 0xf8 = sentFlags (withFragmented p.flags f) (ends.suite encrypt) false &&& 0xf8 := by
    rw [isSealed.flags]
  obtain ⟨cipher, flag, -⟩ := sentFlags_spec (ends.suite_cases encrypt) octet
  constructor
  · rw [Packet.cipher, Parts.flags_bytes, cipher]
  · rw [fragmented_bytes, flag]
    exact (withFragmented_spec p.flags f).2.2

theorem sealed_encrypted : isEncrypted q.bytes = encrypt := by
  rw [isEncrypted, (sealed_cipher isSealed).1, Ends.suite]
  cases encrypt with
  | false => rfl
  | true =>
      rw [if_pos rfl]
      split_ifs <;> decide

theorem sealed_accepted (frame : Frame p.bytes) :
    ends.accept path q.bytes = some { q with body := p.body }.bytes := by
  have cipher := (sealed_cipher isSealed).1
  have proper : Packet.cipher q.bytes ≠ 2 := by
    rw [cipher]
    rcases ends.suite_cases encrypt with suite | suite | suite <;> rw [suite] <;> decide
  have noHello : ¬ (Packet.cipher q.bytes = 0 ∧ Packet.verb q.bytes = 1) := by
    rintro ⟨plain, hello⟩
    have encrypted := sealed_encrypted isSealed
    rw [isEncrypted, plain] at encrypted
    have same := (isSealed.clear encrypted.symm).2
    have verb : Packet.verb q.bytes = Packet.verb p.bytes := by
      have octet (r : Parts) : Packet.byteAt r.bytes 27 = Packet.byteAt (r.bytes.drop 27) 0 := by
        rw [Packet.byteAt, Packet.byteAt, List.getD_eq_getElem?_getD, List.getD_eq_getElem?_getD, List.getElem?_drop]
      rw [Packet.verb, Packet.verb, octet q, octet p, Parts.drop_body, Parts.drop_body, same]
    rw [hello] at verb
    rcases frame.verb with six | seven
    · rw [six] at verb
      exact absurd verb (by decide)
    · rw [seven] at verb
      exact absurd verb (by decide)
  rw [Ends.accept, if_neg proper, if_neg noHello, isSealed.opened]
  rfl

/-- A path that wants the packet as it is. -/
theorem sealed_kept (encrypted : encrypt = true) (untrusted : path.trustedPathId = 0)
    (alike : decide (path.mtu < p.bytes.length) = f) : ends.sentOver encrypt path q.bytes = q.bytes := by
  have size : q.bytes.length = p.bytes.length := by rw [Parts.length_bytes, Parts.length_bytes, isSealed.size]
  have flag := (sealed_cipher isSealed).2
  rw [fragmented_bytes] at flag
  have kept : setFragmented q.bytes f = q.bytes := by rw [setFragmented_bytes, withFragmented_same q.flags flag]
  rw [sentOver_eq, size, alike, kept, Ends.secure, untrusted, if_neg (not_not.mpr rfl), sealed_encrypted isSealed,
    encrypted, if_pos rfl]

end Paths

section Runs

variable {ends : Ends} (lawful : ends.crypto.Lawful) {encrypt : Bool} {p q : Parts} (frame : Frame p.bytes)

/-- Every path delivers a packet that the loop starts with in some state. -/
def AllDelivered (ends : Ends) (encrypt : Bool) (packet : List Byte) (paths : List LivePath) (state : List Byte) :
    Prop :=
  List.Forall₂ (ends.Delivered packet) paths (ends.broadcast encrypt paths state)

theorem allDelivered_cons {packet state : List Byte} {path : LivePath} {rest : List LivePath} :
    AllDelivered ends encrypt packet (path :: rest) state ↔
      ends.Delivered packet path (transmit path.mtu (ends.sentOver encrypt path state)) ∧
        AllDelivered ends encrypt packet rest (ends.sentOver encrypt path state) := by
  rw [AllDelivered, Ends.broadcast, List.forall₂_cons]
  rfl

/-- What the paths behind an armored packet have to be like. -/
def FitsArmor (size : Nat) (f : Bool) (path : LivePath) : Prop :=
  path.trustedPathId = 0 ∧ decide (path.mtu < size) = f

include frame

/-- A path that armors a packet delivers it. -/
theorem sealed_delivered {path : LivePath} (isSealed : Sealed ends encrypt p (decide (path.mtu < p.bytes.length)) q) :
    ends.Delivered p.bytes path (transmit path.mtu q.bytes) ↔ Carries path.mtu p.bytes.length := by
  rw [delivered_iff frame isSealed.addresses isSealed.size (sealed_cipher isSealed).2, sealed_accepted isSealed frame]
  exact and_iff_left ⟨_, rfl, Parts.drop_body _⟩

theorem sealed_paths {f : Bool} (isSealed : Sealed ends true p f q) (paths : List LivePath)
    (carried : ∀ path ∈ paths, Carries path.mtu p.bytes.length)
    (alike : ∀ path ∈ paths, FitsArmor p.bytes.length f path) : AllDelivered ends true p.bytes paths q.bytes := by
  induction paths with
  | nil => exact List.Forall₂.nil
  | cons path rest ih =>
      obtain ⟨untrusted, same⟩ := alike path List.mem_cons_self
      rw [allDelivered_cons, sealed_kept isSealed rfl untrusted same]
      constructor
      · rw [← same] at isSealed
        exact (sealed_delivered frame isSealed).mpr (carried path List.mem_cons_self)
      · exact ih (fun later member => carried later (List.mem_cons_of_mem _ member))
          (fun later member => alike later (List.mem_cons_of_mem _ member))

/-- A path that does not fit gets a packet which the peer does not accept, or which carries the ciphertext. -/
theorem sealed_delivered_fits {f : Bool} (separates : ends.Separates p.bytes) (isSealed : Sealed ends true p f q)
    {path : LivePath} (delivered : ends.Delivered p.bytes path (transmit path.mtu (ends.sentOver true path q.bytes))) :
    FitsArmor p.bytes.length f path := by
  have size : q.bytes.length = p.bytes.length := by rw [Parts.length_bytes, Parts.length_bytes, isSealed.size]
  have encrypted := sealed_encrypted isSealed
  by_cases untrusted : path.trustedPathId = 0
  · refine ⟨untrusted, ?_⟩
    by_contra other
    let r : Parts := { q with flags := withFragmented q.flags (!f) }
    have flip : decide (path.mtu < p.bytes.length) = !f := Bool.eq_not_of_ne other
    have changed : setFragmented q.bytes (!f) = r.bytes := setFragmented_bytes q (!f)
    have still : isEncrypted r.bytes = true := by rw [← changed, isEncrypted_setFragmented, encrypted]
    have sent : ends.sentOver true path q.bytes = r.bytes := by
      rw [sentOver_eq, size, flip, changed, untrusted, Ends.secure, if_neg (not_not.mpr rfl), if_pos still]
    have flagged : Packet.fragmented r.bytes = decide (path.mtu < p.bytes.length) := by
      rw [flip, fragmented_bytes]
      exact (withFragmented_spec q.flags (!f)).2.2
    have refused := separates.mac f
    rw [isSealed.bytes, changed] at refused
    rw [sent, @delivered_iff ends p path frame r isSealed.addresses isSealed.size flagged] at delivered
    obtain ⟨-, plain, accepted, -⟩ := delivered
    have cipher : Packet.cipher r.bytes = 1 ∨ Packet.cipher r.bytes = 3 := of_decide_eq_true still
    rw [Ends.accept, if_neg (by rcases cipher with one | three <;> simp [*]),
      if_neg (by rcases cipher with one | three <;> simp [*])] at accepted
    dsimp only at accepted
    rw [refused, if_neg (by decide)] at accepted
    cases accepted
  · let r := overTrusted q (decide (path.mtu < p.bytes.length)) path.trustedPathId
    have flagged := (overTrusted_fields q (decide (path.mtu < p.bytes.length)) path.trustedPathId).2.2
    rw [sent_trusted size untrusted, @delivered_iff ends p path frame r isSealed.addresses isSealed.size flagged]
      at delivered
    obtain ⟨-, plain, accepted, same⟩ := delivered
    rw [overTrusted_accepted] at accepted
    have body : q.body = p.body := by
      rw [← same, ← Option.some.inj accepted, Parts.drop_body]
      rfl
    apply absurd _ (separates.ciphertext f)
    rw [isSealed.bytes, Parts.drop_body, Parts.drop_body, body]

theorem sealed_paths_fit {f : Bool} (separates : ends.Separates p.bytes) (isSealed : Sealed ends true p f q)
    (paths : List LivePath) (delivered : AllDelivered ends true p.bytes paths q.bytes) :
    ∀ path ∈ paths, Carries path.mtu p.bytes.length ∧ FitsArmor p.bytes.length f path := by
  induction paths with
  | nil => exact fun path member => absurd member List.not_mem_nil
  | cons path rest ih =>
      obtain ⟨here, later⟩ := allDelivered_cons.mp delivered
      obtain ⟨untrusted, same⟩ := sealed_delivered_fits frame separates isSealed here
      rw [sealed_kept isSealed rfl untrusted same] at here later
      intro other member
      rcases List.mem_cons.mp member with rfl | behind
      · refine ⟨?_, untrusted, same⟩
        rw [← same] at isSealed
        exact (sealed_delivered frame isSealed).mp here
      · exact ih later other behind

/-- Over a trusted path a packet that is not encrypted is delivered as it is. -/
theorem unsealed_delivered {path : LivePath} (unsealed : Unsealed p q) :
    ends.Delivered p.bytes path
      (transmit path.mtu (overTrusted q (decide (path.mtu < p.bytes.length)) path.trustedPathId).bytes) ↔
        Carries path.mtu p.bytes.length := by
  let r := overTrusted q (decide (path.mtu < p.bytes.length)) path.trustedPathId
  have flagged := (overTrusted_fields q (decide (path.mtu < p.bytes.length)) path.trustedPathId).2.2
  have size : r.body.length = p.body.length := congrArg List.length unsealed.body
  rw [@delivered_iff ends p path frame r unsealed.addresses size flagged, overTrusted_accepted]
  refine and_iff_left ⟨_, rfl, ?_⟩
  rw [Parts.drop_body]
  exact unsealed.body

/-- Without encryption, an armored packet is one that was not encrypted. -/
theorem sealed_unsealed {f : Bool} (isSealed : Sealed ends false p f q) : Unsealed p q := by
  obtain ⟨iv, body⟩ := isSealed.clear rfl
  refine ⟨iv, isSealed.addresses, body, ?_, sealed_encrypted isSealed⟩
  have octets : ∀ octet : Byte, sentFlags octet 0 false &&& 0x07 = octet &&& 0x07 := by decide
  rw [isSealed.flags]
  change sentFlags (withFragmented p.flags f) 0 false &&& 0x07 = 0
  rw [octets, (withFragmented_spec p.flags f).1, (unsealed_refl frame).hops]

include lawful

theorem unsealed_paths (unsealed : Unsealed p q) (paths : List LivePath)
    (carried : ∀ path ∈ paths, Carries path.mtu p.bytes.length)
    (shared : encrypt = true → paths.Pairwise (SharesArmor p.bytes.length)) :
    AllDelivered ends encrypt p.bytes paths q.bytes := by
  induction paths generalizing q with
  | nil => exact List.Forall₂.nil
  | cons path rest ih =>
      have size : q.bytes.length = p.bytes.length := by rw [Parts.length_bytes, Parts.length_bytes, unsealed.body]
      have here := carried path List.mem_cons_self
      have later : ∀ path ∈ rest, Carries path.mtu p.bytes.length := fun path member =>
        carried path (List.mem_cons_of_mem _ member)
      have sharedLater : encrypt = true → rest.Pairwise (SharesArmor p.bytes.length) := fun encrypted =>
        (shared encrypted).of_cons
      rw [allDelivered_cons]
      by_cases untrusted : path.trustedPathId = 0
      · obtain ⟨r, isSealed⟩ := armored_sealed lawful frame encrypt (decide (path.mtu < p.bytes.length))
        rw [sent_armored lawful frame unsealed untrusted, isSealed.bytes]
        refine ⟨(sealed_delivered frame isSealed).mpr here, ?_⟩
        cases encrypt with
        | false => exact ih (sealed_unsealed frame isSealed) later sharedLater
        | true =>
            apply sealed_paths frame isSealed rest later
            intro other member
            obtain ⟨alsoUntrusted, alike⟩ := (List.pairwise_cons.mp (shared rfl)).1 other member untrusted
            exact ⟨alsoUntrusted, (decide_eq_decide.mpr alike).symm⟩
      · rw [sent_trusted size untrusted]
        exact ⟨(unsealed_delivered frame unsealed).mpr here,
          ih (overTrusted_unsealed unsealed _ _) later sharedLater⟩

theorem unsealed_paths_share (separates : encrypt = true → ends.Separates p.bytes) (unsealed : Unsealed p q)
    (paths : List LivePath) (delivered : AllDelivered ends encrypt p.bytes paths q.bytes) :
    (∀ path ∈ paths, Carries path.mtu p.bytes.length) ∧
      (encrypt = true → paths.Pairwise (SharesArmor p.bytes.length)) := by
  induction paths generalizing q with
  | nil => exact ⟨fun path member => absurd member List.not_mem_nil, fun _ => List.Pairwise.nil⟩
  | cons path rest ih =>
      have size : q.bytes.length = p.bytes.length := by rw [Parts.length_bytes, Parts.length_bytes, unsealed.body]
      obtain ⟨here, later⟩ := allDelivered_cons.mp delivered
      rw [List.forall_mem_cons]
      by_cases untrusted : path.trustedPathId = 0
      · obtain ⟨r, isSealed⟩ := armored_sealed lawful frame encrypt (decide (path.mtu < p.bytes.length))
        rw [sent_armored lawful frame unsealed untrusted, isSealed.bytes] at here later
        have carried := (sealed_delivered frame isSealed).mp here
        cases encrypt with
        | false =>
            obtain ⟨rest', -⟩ := ih (sealed_unsealed frame isSealed) later
            exact ⟨⟨carried, rest'⟩, fun wrong => nomatch wrong⟩
        | true =>
            have fit := sealed_paths_fit frame (separates rfl) isSealed rest later
            refine ⟨⟨carried, fun other member => (fit other member).1⟩, fun _ => ?_⟩
            have alike : ∀ other ∈ path :: rest, FitsArmor p.bytes.length (decide (path.mtu < p.bytes.length)) other := by
              rw [List.forall_mem_cons]
              exact ⟨⟨untrusted, rfl⟩, fun other member => (fit other member).2⟩
            apply List.Pairwise.imp_of_mem _ (List.pairwise_of_forall fun _ _ => trivial)
            intro first second firstIn secondIn _ _
            obtain ⟨-, firstFlag⟩ := alike first firstIn
            obtain ⟨secondUntrusted, secondFlag⟩ := alike second secondIn
            exact ⟨secondUntrusted, decide_eq_decide.mp (firstFlag.trans secondFlag.symm)⟩
      · rw [sent_trusted size untrusted] at here later
        obtain ⟨rest', shared⟩ := ih (overTrusted_unsealed unsealed _ _) later
        refine ⟨⟨(unsealed_delivered frame unsealed).mp here, rest'⟩, fun encrypted => ?_⟩
        rw [List.pairwise_cons]
        exact ⟨fun other _ trusted => absurd trusted untrusted, shared encrypted⟩

end Runs

/-- The paths can share one packet: each carries it, and if it is encrypted, the trusted paths come before the others,
which all need fragments or all need none. -/
def SharePacket (encrypt : Bool) (size : Nat) (paths : List LivePath) : Prop :=
  (∀ path ∈ paths, Carries path.mtu size) ∧ (encrypt = true → paths.Pairwise (SharesArmor size))

/-- The peer accepts what every path sends, with the same verb and payload, if the paths can share the packet; and only
then, if the cipher does its work. -/
theorem broadcast_delivered (ends : Ends) (lawful : ends.crypto.Lawful) (encrypt : Bool) {packet : List Byte}
    (frame : Frame packet) (paths : List LivePath) :
    (SharePacket encrypt packet.length paths → AllDelivered ends encrypt packet paths packet) ∧
      ((encrypt = true → ends.Separates packet) →
        AllDelivered ends encrypt packet paths packet → SharePacket encrypt packet.length paths) := by
  have header : 27 ≤ packet.length := le_trans (by decide) frame.long
  obtain ⟨p, rfl⟩ : ∃ p : Parts, p.bytes = packet := ⟨Parts.cut packet header, Parts.bytes_cut packet header⟩
  have unsealed := unsealed_refl frame
  constructor
  · intro shared
    exact unsealed_paths lawful frame unsealed paths shared.1 shared.2
  · intro separates delivered
    exact unsealed_paths_share lawful frame separates unsealed paths delivered

section Small

/-- A frame with the least payload on an Ethernet network, from node 2 to node 1. -/
def smallFrame : List Byte :=
  [1, 2, 3, 4, 5, 6, 7, 8, 0, 0, 0, 0, 1, 0, 0, 0, 0, 2, 0, 0, 0, 0, 0, 0, 0, 0, 0, 6] ++
    [0, 0, 0, 0, 0, 0, 0, 9] ++ [8, 0] ++ List.replicate 46 7

theorem smallFrame_frame : Frame smallFrame :=
  ⟨by decide, by decide, by decide, by decide, by decide, by decide⟩

/-- Node 2 sends to node 1, which supports AES-GMAC-SIV. -/
def smallEnds : Ends := ⟨software, 77, (2 ^ 200, 4), 12, nodeOne, 5, 0, true, false⟩

theorem smallEnds_separates : smallEnds.Separates smallFrame where
  mac := by
    intro f
    cases f <;> decide +kernel
  ciphertext := by
    intro f
    cases f <;> decide +kernel

/-- Paths of the default MTU, and of a link whose MTU is just below the length of the frame. -/
def defaultPath : LivePath := ⟨none, 0⟩

def narrowPath : LivePath := ⟨none, 80⟩

def trustedPath : LivePath := ⟨some (0, 12), 0⟩

/-- A trusted path first, and then two that both need fragments. -/
theorem frame_shared :
    AllDelivered smallEnds true smallFrame [trustedPath, narrowPath, narrowPath] smallFrame := by
  apply (broadcast_delivered smallEnds software_lawful true smallFrame_frame [trustedPath, narrowPath, narrowPath]).1
  refine ⟨?_, fun _ => ?_⟩
  · unfold Carries
    decide
  · unfold SharesArmor
    decide

/-- The MAC does not fit the frame that the link needs to fragment, and over the trusted path goes the ciphertext. -/
theorem frame_not_shared :
    Frame smallFrame ∧ ¬ AllDelivered smallEnds true smallFrame [defaultPath, narrowPath] smallFrame ∧
      ¬ AllDelivered smallEnds true smallFrame [defaultPath, trustedPath] smallFrame := by
  have shares (paths : List LivePath) (delivered : AllDelivered smallEnds true smallFrame paths smallFrame) :
      paths.Pairwise (SharesArmor smallFrame.length) := by
    have cut : (Parts.cut smallFrame (by decide)).bytes = smallFrame := Parts.bytes_cut _ _
    have frame := smallFrame_frame
    have separates := smallEnds_separates
    rw [← cut] at delivered frame separates ⊢
    exact (unsealed_paths_share software_lawful frame (fun _ => separates) (unsealed_refl frame) paths delivered).2 rfl
  refine ⟨smallFrame_frame, ?_, ?_⟩
  · intro delivered
    have shared := shares _ delivered
    unfold SharesArmor at shared
    exact absurd shared (by decide)
  · intro delivered
    have shared := shares _ delivered
    unfold SharesArmor at shared
    exact absurd shared (by decide)

end Small

end ZeroTierNode.BroadcastPaths
