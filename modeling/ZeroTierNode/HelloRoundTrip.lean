import ZeroTierNode.EncryptedHello
import ZeroTierNode.Hello

/-!
What the receiver of a HELLO learns, over both branches of `sendHELLO`. The mask on
the list of moons comes off with the packet id that arrives, and AES-GMAC-SIV puts a
part of its tag in the place of the id that the mask was made with.
-/

namespace ZeroTierNode.HelloRoundTrip
open Library.Bytes Library.Ciphers Library.Outcomes Library.Records Buffer Armor BroadcastPaths CredentialPush
  CredentialDelivery Hello

/-- A call of `sendHELLO` and the way of its packet. -/
structure Call where
  encryptedHelloEnabled : Bool
  /-- The random bytes of the packet, and of the ephemeral key. -/
  fresh : BitVec 64 × BitVec 64
  ephemeral : BitVec 256
  self : Identity
  worlds : Worlds
  atAddress : InetAddress
  now : BitVec 64
  /-- The protocol version of the receiver, as far as the sender knows. -/
  vProto : BitVec 16
  senderFast : Bool
  /-- The path that `Switch::send` chooses, and the relays on the way. -/
  path : LivePath
  relays : Nat

namespace Call

variable (c : Call) (r : Receiver)

/-- Both ends derive the same keys. -/
def ends : Ends :=
  ⟨r.crypto, r.key c.self, r.aesKeys c.self, c.vProto, r.identity, c.ephemeral, r.privateKey, c.senderFast, r.fastCrypto⟩

def greeting : Greeting := Hello.greeting c.self c.worlds c.atAddress c.now

/-- What arrives at the receiver; what goes through `Switch::send` is put together from its datagrams. -/
def arrival : Option (List Byte) := do
  let outp ← sendHELLO (c.ends r) c.encryptedHelloEnabled c.fresh c.self c.worlds c.atAddress c.now c.path
  if c.atAddress.isSet then some (incrementHops^[c.relays] outp)
  else do
    let whole ← reassemble (Fragmentation.transmit c.path.mtu outp)
    return incrementHops^[c.relays] whole

def moonCount : Nat := c.worlds.moons.length + c.worlds.moonsWanted.length

/-- The length of the packet before it is armored. -/
def size : Nat := 130 + c.atAddress.serialize.length + 17 * c.moonCount

/-- The packet holds the list of moons, and the ephemeral key if there is one, and can be put together again. -/
def Fits : Prop :=
  (if c.atAddress.isSet ∧ c.encryptedHelloEnabled then c.size + ephemeralPublicKeyLen else c.size) ≤
      Packet.maxPacketLength ∧
    (c.atAddress.isSet = false → Carries c.path.mtu c.size)

/-- `Switch::send` armors the packet with AES-GMAC-SIV. -/
def Rewritten : Prop := c.atAddress.isSet = false ∧ c.path.trustedPathId = 0 ∧ 12 ≤ c.vProto.toNat

/-- Over the list of moons, the key stream of the id that arrives is that of the id that was sent. -/
def SameMask : Prop :=
  ∀ arrived, c.arrival r = some arrived → ∀ i < 2 + 17 * c.moonCount,
    maskStream r.crypto (r.key c.self) (wordBytes 8 c.fresh.1) i =
      maskStream r.crypto (r.key c.self) (Packet.fieldAt arrived 0 8) i

/-- A HELLO that is encrypted does not look like one in the clear. -/
def Hidden : Prop :=
  c.atAddress.isSet = true → c.encryptedHelloEnabled = true →
    ∀ outp, helloPacket r.crypto (r.key c.self) c.fresh r.identity.address c.self c.worlds c.atAddress c.now = some outp →
      EncryptedHello.verbMask r.crypto c.ephemeral r.identity outp &&& 0x1f ≠ 0

end Call

/-- The receiver knows the sender. -/
def Acquainted (r : Receiver) (self : Identity) : Prop :=
  ∃ vProto, r.getPeer self.address = some ⟨self, vProto⟩

/-- The receiver does not know the sender, and will make its acquaintance. -/
def Stranger (r : Receiver) (self : Identity) : Prop :=
  r.getPeer self.address = none ∧ r.rateGateIdentityVerification = true ∧ r.agree self = true ∧
    r.locallyValidate self = true

/-- What has to be true of the receiver for `_doHELLO` to run: only a HELLO in the clear introduces a stranger. -/
structure Receives (c : Call) (r : Receiver) : Prop where
  known : Acquainted r c.self ∨ (Stranger r c.self ∧ c.atAddress.isSet = true ∧ c.encryptedHelloEnabled = false)
  trusts : c.path.trustedPathId ≠ 0 → r.shouldInboundPathBeTrusted c.path.trustedPathId = true

/-- The worlds that the receiver has to add fit into the reply. -/
def ReplyFits (r : Receiver) (g : Greeting) : Prop :=
  52 + r.pathAddress.serialize.length + (r.updates g).flatten.length ≤ Packet.maxPacketLength

instance (r : Receiver) (g : Greeting) : Decidable (ReplyFits r g) := inferInstanceAs (Decidable (_ ≤ _))

/-- The reply is an OK(HELLO) for a packet id, with an echo of the timestamp. -/
structure IsOkHello (ok : List Byte) (pid timestamp : BitVec 64) : Prop where
  verb : Packet.verb ok = verbOk
  inReVerb : at8 ok 28 = some verbHello
  inRePacketId : at64 ok 29 = some pid
  timestampEcho : at64 ok 37 = some timestamp

/-- The receiver learns exactly what a greeting says, and answers. -/
def Answered (r : Receiver) (g : Greeting) (arrived : List Byte) : Prop :=
  ∃ ok sent, (r.tryDecode arrived).outcome = .returned (.answered g ok sent) ∧
    IsOkHello ok (Packet.packetId arrived) g.timestamp

section Layout

theorem length_word (word : BitVec 64) : (wordBytes 8 word).length = 8 := wordBytes_length 8 word

/-- A new packet, cut at its fields. -/
def newParts (iv mac : BitVec 64) (dest source : Address) (body : List Byte) : Parts where
  iv := wordBytes 8 iv
  addresses := dest.appendTo ++ source.appendTo
  flags := 0
  mac := wordBytes 8 mac
  body := body
  ivLength := length_word iv
  addressesLength := by rw [List.length_append, Address.appendTo, Address.appendTo, wordBytes_length, wordBytes_length]
  macLength := length_word mac

theorem newPacket_bytes (iv mac : BitVec 64) (dest source : Address) (verb : Byte) (rest : List Byte) :
    newPacket iv mac dest source verb ++ rest = (newParts iv mac dest source (verb :: rest)).bytes := by
  simp [newPacket, Parts.bytes, newParts]

theorem newPacket_length (iv mac : BitVec 64) (dest source : Address) (verb : Byte) :
    (newPacket iv mac dest source verb).length = 28 := by
  simp [newPacket, Address.appendTo]

theorem source_of_addresses {q : Parts} {dest source : Address}
    (addresses : q.addresses = dest.appendTo ++ source.appendTo) : Packet.source q.bytes = source := by
  have read : Packet.fieldAt q.bytes 13 5 = source.appendTo := by
    have whole := q.fieldAt_addresses
    have part : Packet.fieldAt q.bytes 13 5 = Packet.fieldAt (Packet.fieldAt q.bytes 8 10) 5 5 := by
      rw [Packet.fieldAt, Packet.fieldAt, Packet.fieldAt, List.drop_take, List.take_take, List.drop_drop]
      rfl
    have length : dest.appendTo.length = 5 := wordBytes_length 5 dest
    rw [part, whole, addresses, Packet.fieldAt, List.drop_left' length]
    exact List.take_of_length_le (by rw [Address.appendTo, wordBytes_length])
  rw [Packet.source, read, Address.appendTo, wordOf_wordBytes 5 source (by decide)]

variable (c : Call) (r : Receiver)

/-- The fields before the list of moons, the list, and its mask. -/
def clearBytes : List Byte := (clearFields c.self c.worlds c.atAddress c.now).flatten

def moonList : List Byte := (maskedFields c.worlds).flatten

def mask : Nat → Byte := maskStream r.crypto (r.key c.self) (wordBytes 8 c.fresh.1)

theorem length_clearBytes : 28 + (clearBytes c).length = 128 + c.atAddress.serialize.length := by
  simp [clearBytes, clearFields, Identity.serialize, Address.appendTo]
  omega

theorem flatten_fields {α : Type} (fields : α → List (List Byte)) (records : List α) :
    (records.flatMap fields).flatten = records.flatMap fun record => (fields record).flatten := by
  induction records with
  | nil => rfl
  | cons record records ih => rw [List.flatMap_cons, List.flatten_append, ih, List.flatMap_cons]

/-- The list of moons is a count and the moons that are told of. -/
theorem moonList_eq (moons : ∀ m ∈ c.worlds.moons, m.type = .moon) :
    moonList c = count16 c.moonCount ++ c.greeting.moonIdsAndTimestamps.flatMap moonBytes := by
  have known : c.worlds.moons.flatMap (fun m => (moonFields m.type m.id m.ts).flatten) =
      (c.worlds.moons.map (fun m => (m.id, m.ts))).flatMap moonBytes := by
    rw [List.flatMap_map]
    apply List.flatMap_congr
    intro m member
    rw [moons m member]
    rfl
  have wanted : c.worlds.moonsWanted.flatMap (fun m => (moonFields .moon m 0).flatten) =
      (c.worlds.moonsWanted.map (fun m => (m, (0 : BitVec 64)))).flatMap moonBytes := by
    rw [List.flatMap_map]
    rfl
  rw [moonList, maskedFields, Call.greeting, Hello.greeting, List.flatMap_append, ← known, ← wanted]
  simp only [List.flatten_append, List.flatten_cons, List.flatten_nil, List.append_nil, List.append_assoc,
    flatten_fields]
  rfl

theorem length_moonList (moons : ∀ m ∈ c.worlds.moons, m.type = .moon) :
    (moonList c).length = 2 + 17 * c.moonCount := by
  have count : c.greeting.moonIdsAndTimestamps.length = c.moonCount := by
    simp [Call.greeting, Hello.greeting, Call.moonCount]
  rw [moonList_eq c moons, List.length_append, length_moons, count, count16, wordBytes_length]

/-- The packet that leaves `sendHELLO`, but for its armor. -/
def helloParts : Parts :=
  newParts c.fresh.1 c.fresh.2 r.identity.address c.self.address
    (verbHello :: (clearBytes c ++ xorStream (mask c r) (moonList c)))

/-- Two runs of `append`, and what is made of the end of the first run. -/
theorem foldlM_append_twice {outp : List Byte} (start : outp.length ≤ Packet.maxPacketLength)
    (first second : List (List Byte)) (finish : List Byte → Nat → List Byte) :
    (do
      let front ← first.foldlM append outp
      let whole ← second.foldlM append front
      return finish whole front.length) =
      if outp.length + first.flatten.length + second.flatten.length ≤ Packet.maxPacketLength then
        some (finish (outp ++ first.flatten ++ second.flatten) (outp.length + first.flatten.length))
      else none := by
  rw [foldlM_append_eq start]
  by_cases room : outp.length + first.flatten.length ≤ Packet.maxPacketLength
  · have length : (outp ++ first.flatten).length = outp.length + first.flatten.length := List.length_append
    rw [if_pos room, Option.bind_eq_bind, Option.bind_some, foldlM_append_eq (by rw [length]; exact room), length]
    by_cases also : outp.length + first.flatten.length + second.flatten.length ≤ Packet.maxPacketLength
    · rw [if_pos also, if_pos also]
      rfl
    · rw [if_neg also, if_neg also]
      rfl
  · rw [if_neg room, if_neg (by omega)]
    rfl

theorem helloPacket_eq (moons : ∀ m ∈ c.worlds.moons, m.type = .moon) :
    helloPacket r.crypto (r.key c.self) c.fresh r.identity.address c.self c.worlds c.atAddress c.now =
      if c.size ≤ Packet.maxPacketLength then some (helloParts c r).bytes else none := by
  let start := newPacket c.fresh.1 c.fresh.2 r.identity.address c.self.address verbHello
  have startLength : start.length = 28 := newPacket_length _ _ _ _ _
  have clear := length_clearBytes c
  have list := length_moonList c moons
  have total : start.length + (clearBytes c).length + (moonList c).length = c.size := by
    rw [Call.size]
    omega
  let p := newParts c.fresh.1 c.fresh.2 r.identity.address c.self.address (verbHello :: (clearBytes c ++ moonList c))
  have cut : p.bytes = start ++ clearBytes c ++ moonList c := by
    rw [List.append_assoc]
    exact (newPacket_bytes _ _ _ _ _ _).symm
  have masked := cryptField_tail r.crypto (r.key c.self) p cut
  have same : start ++ clearBytes c ++ xorStream (maskStream r.crypto (r.key c.self) p.iv) (moonList c) =
      (helloParts c r).bytes := by
    rw [List.append_assoc]
    exact newPacket_bytes _ _ _ _ _ _
  rw [helloPacket]
  refine (foldlM_append_twice (by rw [startLength]; decide) _ _ fun whole front =>
    cryptField r.crypto (r.key c.self) whole front (whole.length - front)).trans ?_
  rw [← clearBytes, ← moonList, total, ← List.length_append, ← cut, masked, same]

end Layout

section Reading

variable {c : Call} {r : Receiver} {q : Parts} {tail : List Byte}

/-- What is read of a HELLO before the list of moons. -/
theorem clear_read (body : q.body = verbHello :: (clearBytes c ++ tail)) :
    at8 q.bytes 28 = some protoVersion ∧ at8 q.bytes 29 = some versionMajor ∧ at8 q.bytes 30 = some versionMinor ∧
      at16 q.bytes 31 = some versionRevision ∧ at64 q.bytes 33 = some c.now ∧
      Identity.deserializeAt q.bytes 41 = .returned ((c.self, none), 71) ∧
      InetAddress.deserialize q.bytes 112 = some (c.atAddress, c.atAddress.serialize.length) ∧
      at64 q.bytes (112 + c.atAddress.serialize.length) = some c.worlds.planet.id ∧
      at64 q.bytes (112 + c.atAddress.serialize.length + 8) = some c.worlds.planet.ts ∧
      Stands tail q.bytes (128 + c.atAddress.serialize.length) := by
  have here : Stands (clearBytes c ++ tail) q.bytes 28 := by
    rw [Stands, show 28 = 27 + 1 from rfl, ← List.drop_drop, Parts.drop_body, body, List.drop_one, List.tail_cons]
  simp only [clearBytes, clearFields, List.flatten_cons, List.flatten_nil, List.append_nil, List.append_assoc] at here
  obtain ⟨proto, here⟩ := atWord_of_stands (by decide : 8 ≤ 8 * 1) (by decide) here
  obtain ⟨major, here⟩ := atWord_of_stands (by decide : 8 ≤ 8 * 1) (by decide) here
  obtain ⟨minor, here⟩ := atWord_of_stands (by decide : 8 ≤ 8 * 1) (by decide) here
  obtain ⟨revision, here⟩ := atWord_of_stands (by decide : 16 ≤ 8 * 2) (by decide) here
  obtain ⟨timestamp, here⟩ := atWord_of_stands (by decide : 64 ≤ 8 * 8) (by decide) here
  obtain ⟨identity, here⟩ := Identity.deserializeAt_of_stands here
  obtain ⟨address, here⟩ := stands_append.mp here
  obtain ⟨planetId, here⟩ := atWord_of_stands (by decide : 64 ≤ 8 * 8) (by decide) here
  obtain ⟨planetTs, here⟩ := atWord_of_stands (by decide : 64 ≤ 8 * 8) (by decide) here
  simp only [Nat.reduceAdd] at revision timestamp identity address planetId planetTs here minor major
  refine ⟨proto, major, minor, revision, timestamp, identity, InetAddress.recovers _ _ _ address, planetId, planetTs, ?_⟩
  rw [show 128 + c.atAddress.serialize.length = 112 + c.atAddress.serialize.length + 8 + 8 by omega]
  exact here

/-- A packet whose list of moons was masked for the id that it had. -/
structure HoldsHello (c : Call) (r : Receiver) (q : Parts) : Prop where
  addresses : q.addresses = r.identity.address.appendTo ++ c.self.address.appendTo
  body : q.body = verbHello :: (clearBytes c ++ xorStream (mask c r) (moonList c))

theorem hello_length (moons : ∀ m ∈ c.worlds.moons, m.type = .moon) (holds : HoldsHello c r q) :
    q.bytes.length = c.size := by
  have clear := length_clearBytes c
  have list := length_moonList c moons
  rw [Parts.length_bytes, holds.body, List.length_cons, List.length_append, length_xorStream, Call.size]
  omega

/-- The list of moons comes out as it went in exactly if the key streams agree on it. -/
theorem readMasked_iff (moons : ∀ m ∈ c.worlds.moons, m.type = .moon) (holds : HoldsHello c r q)
    (fits : c.size ≤ Packet.maxPacketLength) :
    readMasked r.crypto (r.key c.self) q.bytes (128 + c.atAddress.serialize.length) =
        some c.greeting.moonIdsAndTimestamps ↔
      ∀ i < 2 + 17 * c.moonCount, mask c r i = maskStream r.crypto (r.key c.self) q.iv i := by
  have size := hello_length moons holds
  have list := length_moonList c moons
  have counted : c.greeting.moonIdsAndTimestamps.length = c.moonCount := by
    simp [Call.greeting, Hello.greeting, Call.moonCount]
  have total : c.size = 130 + c.atAddress.serialize.length + 17 * c.moonCount := rfl
  have most : Packet.maxPacketLength = 10024 := rfl
  let ptr := 128 + c.atAddress.serialize.length
  let front := q.bytes.take ptr
  have frontLength : front.length = ptr := by
    rw [List.length_take]
    omega
  have standing := (clear_read holds.body).2.2.2.2.2.2.2.2.2
  have cut : q.bytes = front ++ xorStream (mask c r) (moonList c) := by
    obtain ⟨rest, same⟩ := standing
    have whole : (xorStream (mask c r) (moonList c) ++ rest).length = 2 + 17 * c.moonCount := by
      rw [same, List.length_drop]
      omega
    have empty : rest = [] := by
      rw [List.length_append, length_xorStream, list] at whole
      exact List.eq_nil_of_length_eq_zero (by omega)
    rw [empty, List.append_nil] at same
    rw [same, List.take_append_drop]
  let opened := xorStream (maskStream r.crypto (r.key c.self) q.iv) (xorStream (mask c r) (moonList c))
  have openedLength : opened.length = 2 + 17 * c.moonCount := by rw [length_xorStream, length_xorStream, list]
  have decrypted := cryptField_tail r.crypto (r.key c.self) q cut
  rw [frontLength] at decrypted
  have after : front ++ opened = cryptField r.crypto (r.key c.self) q.bytes ptr (q.bytes.length - ptr) := decrypted.symm
  have behind : (front ++ opened).drop ptr = opened := by rw [← frontLength, List.drop_left]
  have length : (front ++ opened).length = ptr + (2 + 17 * c.moonCount) := by
    rw [List.length_append, frontLength, openedLength]
  unfold readMasked
  rw [if_pos (by omega)]
  dsimp only
  rw [← after, if_pos (by rw [length]; omega), ← list]
  rw [← xorStream_unmask]
  change _ ↔ opened = moonList c
  constructor
  · intro read
    rw [Option.bind_eq_bind, Option.bind_eq_some_iff] at read
    obtain ⟨numMoons, countRead, read⟩ := read
    have atMost := readMoons_length read
    have same : numMoons.toNat = c.moonCount := by
      by_contra different
      obtain ⟨more, cut⟩ : ∃ more, numMoons.toNat = more + 1 := ⟨numMoons.toNat - 1, by omega⟩
      rw [cut] at read
      have inside := readMoons_inside read
      omega
    have moonsStand := stands_of_readMoons read (counted.trans same.symm)
    have countStands : Stands (wordBytes 2 numMoons) (front ++ opened) ptr := @stands_of_atWord 2 _ _ _ countRead
    have whole : Stands (moonList c) (front ++ opened) ptr := by
      rw [moonList_eq c moons, count16, ← same, BitVec.ofNat_toNat, BitVec.setWidth_eq, stands_append, wordBytes_length]
      exact ⟨countStands, moonsStand⟩
    rw [Stands, behind] at whole
    exact (whole.eq_of_length (by rw [openedLength, list])).symm
  · intro same
    have whole : Stands (moonList c ++ []) (front ++ opened) ptr := by
      rw [Stands, behind, same, List.append_nil]
    rw [moonList_eq c moons, List.append_assoc] at whole
    obtain ⟨countRead, rest⟩ := atWord_of_stands (by decide : 16 ≤ 8 * 2) (by decide) whole
    have small : (BitVec.ofNat 16 c.moonCount).toNat = c.moonCount := by
      rw [BitVec.toNat_ofNat, Nat.mod_eq_of_lt]
      omega
    rw [at16, countRead, Option.bind_eq_bind, Option.bind_some, small, ← counted]
    exact readMoons_of_stands rest

end Reading

section Reply

variable (r : Receiver) (pid : BitVec 64) (g : Greeting)

theorem okHELLO_eq : r.okHELLO pid g =
    if ReplyFits r g then
      some (setAt16 (newPacket r.fresh.1 r.fresh.2 g.identity.address r.identity.address verbOk ++
          (r.okFields pid g.timestamp).flatten ++ ([0, 0] :: r.updates g).flatten)
        (28 + (r.okFields pid g.timestamp).flatten.length)
        (BitVec.ofNat 16 (r.updates g).flatten.length))
    else none := by
  let start := newPacket r.fresh.1 r.fresh.2 g.identity.address r.identity.address verbOk
  have startLength : start.length = 28 := newPacket_length _ _ _ _ _
  have fields : (r.okFields pid g.timestamp).flatten.length = 22 + r.pathAddress.serialize.length := by
    simp [Receiver.okFields]
    omega
  have total : start.length + (r.okFields pid g.timestamp).flatten.length + ([0, 0] :: r.updates g).flatten.length =
      52 + r.pathAddress.serialize.length + (r.updates g).flatten.length := by
    rw [List.flatten_cons, List.length_append, startLength, fields]
    simp
    omega
  have split : r.okHELLO pid g = (do
      let front ← (r.okFields pid g.timestamp).foldlM append start
      let whole ← ([0, 0] :: r.updates g).foldlM append front
      return setAt16 whole front.length (BitVec.ofNat 16 (whole.length - (front.length + 2)))) := by
    unfold Receiver.okHELLO
    simp only [List.foldlM_cons, bind_assoc]
    rfl
  have written : (start ++ (r.okFields pid g.timestamp).flatten ++ ([0, 0] :: r.updates g).flatten).length -
      (28 + (r.okFields pid g.timestamp).flatten.length + 2) = (r.updates g).flatten.length := by
    rw [List.length_append, List.length_append, total]
    omega
  rw [split]
  refine (foldlM_append_twice (by rw [startLength]; decide) _ _ fun whole front =>
    setAt16 whole front (BitVec.ofNat 16 (whole.length - (front + 2)))).trans ?_
  rw [total, startLength, written]
  rfl

/-- The fields of the reply that name the HELLO. -/
theorem okHELLO_spec {ok : List Byte} (made : r.okHELLO pid g = some ok) : IsOkHello ok pid g.timestamp := by
  rw [okHELLO_eq] at made
  split_ifs at made
  let start := newPacket r.fresh.1 r.fresh.2 g.identity.address r.identity.address verbOk
  let fields := (r.okFields pid g.timestamp).flatten
  have startLength : start.length = 28 := newPacket_length _ _ _ _ _
  have shape : ok = start ++ (fields ++ (wordBytes 2 (BitVec.ofNat 16 (r.updates g).flatten.length) ++
      (start ++ fields ++ ([0, 0] :: r.updates g).flatten).drop (28 + fields.length + 2))) := by
    have front : (start ++ fields).length = 28 + fields.length := by rw [List.length_append, startLength]
    rw [← Option.some.inj made, setAt16]
    change (start ++ fields ++ _).take (28 + fields.length) ++ _ ++ _ = _
    rw [← front, List.take_left, List.append_assoc, List.append_assoc]
  have standing : Stands (fields ++ []) ok 28 := by
    rw [List.append_nil, Stands, shape, List.drop_left' startLength]
    exact List.prefix_append _ _
  simp only [fields, Receiver.okFields, List.flatten_cons, List.flatten_nil, List.append_nil] at standing
  obtain ⟨inReVerb, standing⟩ := atWord_of_stands (by decide : 8 ≤ 8 * 1) (by decide) standing
  obtain ⟨inRePacketId, standing⟩ := atWord_of_stands (by decide : 64 ≤ 8 * 8) (by decide) standing
  obtain ⟨timestamp, -⟩ := atWord_of_stands (by decide : 64 ≤ 8 * 8) (by decide) standing
  refine ⟨?_, inReVerb, inRePacketId, timestamp⟩
  have cut : ok = (newParts r.fresh.1 r.fresh.2 g.identity.address r.identity.address (verbOk :: (fields ++
      (wordBytes 2 (BitVec.ofNat 16 (r.updates g).flatten.length) ++
        (start ++ fields ++ ([0, 0] :: r.updates g).flatten).drop (28 + fields.length + 2))))).bytes := by
    rw [← newPacket_bytes]
    exact shape
  rw [Packet.verb, cut, EncryptedHello.byteAt_verb]
  change verbOk &&& 0x1f = verbOk
  decide

/-- `armor` without an outer layer never throws. -/
theorem armored_some (key : BitVec 384) (aesKeys : Option AesKeys) (identity : Identity) (outp : List Byte) :
    ∃ sent, r.armored key aesKeys identity outp = some sent := by
  unfold Receiver.armored armor
  exact ⟨_, if_neg (by decide)⟩

end Reply

section Handling

variable {c : Call} {r : Receiver} {q : Parts} (moons : ∀ m ∈ c.worlds.moons, m.type = .moon)
  (holds : HoldsHello c r q) (fits : c.size ≤ Packet.maxPacketLength)

/-- What was read when VALID is reached. -/
def head (c : Call) : Greeting :=
  ⟨protoVersion, versionMajor, versionMinor, versionRevision, c.now, c.self, .nil, 0, 0, []⟩

include moons holds

theorem valid_eq (peer : KnownPeer) (known : peer.identity = c.self) (pid : BitVec 64) :
    r.valid peer (head c) pid 112 q.bytes =
      (readMasked r.crypto (r.key c.self) q.bytes (128 + c.atAddress.serialize.length)).bind fun told =>
        (r.okHELLO pid { c.greeting with moonIdsAndTimestamps := told }).bind fun ok =>
          (r.armored (r.key c.self) (peer.aesKeysIfSupported r.aesKeys) c.self ok).bind fun sent =>
            some (.answered { c.greeting with moonIdsAndTimestamps := told } ok sent) := by
  obtain ⟨-, -, -, -, -, -, address, planetId, planetTs, -⟩ := clear_read holds.body
  have size := hello_length moons holds
  have total : c.size = 130 + c.atAddress.serialize.length + 17 * c.moonCount := rfl
  have surface : readSurface q.bytes 112 = some (c.atAddress, 112 + c.atAddress.serialize.length) := by
    rw [readSurface, if_pos (by omega), address]
    rfl
  have planet : readPlanet q.bytes (112 + c.atAddress.serialize.length) =
      some ((c.worlds.planet.id, c.worlds.planet.ts), 128 + c.atAddress.serialize.length) := by
    rw [readPlanet, if_pos (by omega), planetId, planetTs,
      show 128 + c.atAddress.serialize.length = 112 + c.atAddress.serialize.length + 16 by omega]
    rfl
  rw [Receiver.valid, surface, Option.bind_eq_bind, Option.bind_some]
  dsimp only
  rw [planet, Option.bind_eq_bind, Option.bind_some]
  dsimp only
  rw [known]
  rfl

include fits

/-- From VALID on: the greeting is answered exactly if its reply fits and the list of moons is legible. -/
theorem valid_answers_iff (peer : KnownPeer) (known : peer.identity = c.self) (pid : BitVec 64) :
    (∃ ok sent, r.valid peer (head c) pid 112 q.bytes = some (.answered c.greeting ok sent) ∧
        IsOkHello ok pid c.greeting.timestamp) ↔
      ReplyFits r c.greeting ∧ ∀ i < 2 + 17 * c.moonCount, mask c r i = maskStream r.crypto (r.key c.self) q.iv i := by
  rw [valid_eq moons holds peer known, ← readMasked_iff moons holds fits]
  constructor
  · rintro ⟨ok, sent, answered, -⟩
    obtain ⟨told, read, answered⟩ := Option.bind_eq_some_iff.mp answered
    obtain ⟨made, okMade, answered⟩ := Option.bind_eq_some_iff.mp answered
    obtain ⟨out, -, answered⟩ := Option.bind_eq_some_iff.mp answered
    have same : { c.greeting with moonIdsAndTimestamps := told } = c.greeting := by
      injection Option.some.inj answered
    have moonsTold : told = c.greeting.moonIdsAndTimestamps := congrArg Greeting.moonIdsAndTimestamps same
    rw [same, okHELLO_eq] at okMade
    split_ifs at okMade with room
    exact ⟨room, by rw [read, moonsTold]⟩
  · rintro ⟨room, read⟩
    obtain ⟨ok, made⟩ : ∃ ok, r.okHELLO pid c.greeting = some ok := by
      rw [okHELLO_eq, if_pos room]
      exact ⟨_, rfl⟩
    obtain ⟨sent, out⟩ := armored_some r (r.key c.self) (peer.aesKeysIfSupported r.aesKeys) c.self ok
    refine ⟨ok, sent, ?_, okHELLO_spec r pid c.greeting made⟩
    rw [read, Option.bind_some]
    change (r.okHELLO pid c.greeting).bind _ = _
    rw [made, Option.bind_some, out, Option.bind_some]

omit fits moons in
theorem doHELLO_eq (alreadyAuthenticated : Bool) :
    (r.doHELLO q.bytes alreadyAuthenticated).outcome =
      (r.identified alreadyAuthenticated (head c) (Packet.packetId q.bytes) 112 q.bytes).elim .threw .returned := by
  obtain ⟨proto, major, minor, revision, timestamp, identity, -⟩ := clear_read holds.body
  have source : Packet.source q.bytes = c.self.address := source_of_addresses holds.addresses
  unfold Receiver.doHELLO Identity.deserialize
  rw [proto, major, minor, revision, timestamp, identity]
  have recent : ¬ protoVersion.toNat < 4 := by decide
  simp only [plainly, Logged.ofOption, Bind.bind, Logged.bind, Option.elim_some]
  rw [if_neg recent, if_neg (not_not.mpr source)]
  rfl

include fits

/-- What is handled as authentic, or proves to be. -/
theorem doHELLO_answers_iff {alreadyAuthenticated : Bool} {peer : KnownPeer} (known : peer.identity = c.self)
    {plain : Parts} (opened : HoldsHello c r plain) (sameId : plain.iv = q.iv)
    (identified : r.identified alreadyAuthenticated (head c) (Packet.packetId q.bytes) 112 q.bytes =
      r.valid peer (head c) (Packet.packetId q.bytes) 112 plain.bytes) :
    (∃ ok sent, (r.doHELLO q.bytes alreadyAuthenticated).outcome = .returned (.answered c.greeting ok sent) ∧
        IsOkHello ok (Packet.packetId q.bytes) c.greeting.timestamp) ↔
      ReplyFits r c.greeting ∧ ∀ i < 2 + 17 * c.moonCount, mask c r i = maskStream r.crypto (r.key c.self) q.iv i := by
  have handled := valid_answers_iff moons opened fits peer known (Packet.packetId q.bytes)
  rw [sameId] at handled
  rw [← handled, doHELLO_eq holds, identified]
  cases r.valid peer (head c) (Packet.packetId q.bytes) 112 plain.bytes with
  | none => simp
  | some result => simp

end Handling

section Decoding

variable {c : Call} {r : Receiver} (moons : ∀ m ∈ c.worlds.moons, m.type = .moon)
  (fits : c.size ≤ Packet.maxPacketLength)

theorem guarded_answered {code : Reading HelloResult} {g : Greeting} {ok sent : List Byte} :
    (Logged.guarded .dropped code).outcome = .returned (.answered g ok sent) ↔
      code.outcome = .returned (.answered g ok sent) := by
  unfold Logged.guarded
  cases ended : code.outcome with
  | returned value =>
      dsimp only
      rw [ended]
  | threw => simp
  | aborted =>
      dsimp only
      rw [ended]

/-- The receiver's opinion of a packet that was opened on the way to `_doHELLO`. -/
def Judged (c : Call) (r : Receiver) (q : Parts) : Prop :=
  Answered r c.greeting q.bytes ↔
    ReplyFits r c.greeting ∧ ∀ i < 2 + 17 * c.moonCount, mask c r i = maskStream r.crypto (r.key c.self) q.iv i

include moons fits

theorem judged_of_authentic (known : Acquainted r c.self) {q plain : Parts} (opened : HoldsHello c r plain)
    (sameId : plain.iv = q.iv)
    (decoded : r.tryDecode q.bytes = Logged.guarded .dropped (r.doHELLO plain.bytes true)) : Judged c r q := by
  obtain ⟨vProto, found⟩ := known
  have identified : r.identified true (head c) (Packet.packetId plain.bytes) 112 plain.bytes =
      r.valid ⟨c.self, vProto⟩ (head c) (Packet.packetId plain.bytes) 112 plain.bytes := by
    unfold Receiver.identified
    rw [show (head c).identity = c.self from rfl, found]
    rfl
  have handled := @doHELLO_answers_iff c r plain moons opened fits true ⟨c.self, vProto⟩ rfl plain opened rfl identified
  have pid : Packet.packetId plain.bytes = Packet.packetId q.bytes := by
    rw [Packet.packetId, Packet.packetId, Parts.fieldAt_iv, Parts.fieldAt_iv, sameId]
  rw [pid, sameId] at handled
  unfold Judged Answered
  rw [decoded, ← handled]
  simp only [guarded_answered]

omit moons fits in
theorem decodeFromPeer_eq (known : Acquainted r c.self) {q plain : Parts} {authenticated : Bool}
    (addresses : q.addresses = r.identity.address.appendTo ++ c.self.address.appendTo) (opened : HoldsHello c r plain)
    (dearmored : (if authenticated then (true, q.bytes) else dearmor r.crypto r.fastCrypto (r.key c.self)
      (some (r.aesKeys c.self)) r.privateKey q.bytes) = (true, plain.bytes)) :
    r.decodeFromPeer q.bytes authenticated = r.doHELLO plain.bytes true := by
  obtain ⟨vProto, found⟩ := known
  have verb : Packet.byteAt plain.bytes 27 = verbHello := by
    rw [EncryptedHello.byteAt_verb, opened.body]
    rfl
  have clear : Packet.compressed plain.bytes = false := by
    rw [Packet.compressed, verb]
    decide
  have untouched : Packet.uncompress r.lz4 plain.bytes = some plain.bytes := by
    rw [Packet.uncompress, clear, if_neg (by simp)]
  have named : Packet.verb plain.bytes = verbHello := by
    rw [Packet.verb, verb]
    decide
  unfold Receiver.decodeFromPeer
  rw [source_of_addresses addresses, found]
  dsimp only
  rw [dearmored]
  dsimp only
  rw [if_pos rfl, untouched]
  dsimp only
  rw [if_pos named]

/-- A HELLO in the clear, whether or not the receiver knows its sender. -/
theorem judged_of_clear (known : Acquainted r c.self ∨ Stranger r c.self) {q : Parts} (holds : HoldsHello c r q)
    (cipher : Packet.cipher q.bytes = 0)
    (authentic : ∀ aesKeys, dearmor r.crypto r.fastCrypto (r.key c.self) aesKeys r.privateKey q.bytes = (true, q.bytes)) :
    Judged c r q := by
  have verb : Packet.verb q.bytes = verbHello := by
    rw [Packet.verb, EncryptedHello.byteAt_verb, holds.body]
    change verbHello &&& 0x1f = verbHello
    decide
  have decoded : r.tryDecode q.bytes = Logged.guarded .dropped (r.doHELLO q.bytes false) := by
    have proper : ¬ (0 : Byte) = 2 := by decide
    unfold Receiver.tryDecode
    rw [cipher, if_neg proper, if_pos ⟨rfl, verb⟩]
  have identified : ∃ peer : KnownPeer, peer.identity = c.self ∧
      r.identified false (head c) (Packet.packetId q.bytes) 112 q.bytes =
        r.valid peer (head c) (Packet.packetId q.bytes) 112 q.bytes := by
    unfold Receiver.identified Receiver.dearmored
    rw [show (head c).identity = c.self from rfl]
    rcases known with ⟨vProto, found⟩ | ⟨missing, gate, agree, valid⟩
    · refine ⟨⟨c.self, vProto⟩, rfl, ?_⟩
      rw [found]
      simp [authentic]
    · refine ⟨KnownPeer.new c.self, rfl, ?_⟩
      rw [missing]
      simp [authentic, gate, agree, valid]
  obtain ⟨peer, same, identified⟩ := identified
  have handled := @doHELLO_answers_iff c r q moons holds fits false peer same q holds rfl identified
  unfold Judged Answered
  rw [decoded, ← handled]
  simp only [guarded_answered]

end Decoding

section Branches

variable {c : Call} {r : Receiver} (lawful : r.crypto.Lawful)
  (ownKey : firstHalf r.identity.publicKey = r.crypto.calcPubDH (firstHalf r.privateKey))
  (moons : ∀ m ∈ c.worlds.moons, m.type = .moon) (receives : Receives c r)

theorem helloParts_holds (c : Call) (r : Receiver) : HoldsHello c r (helloParts c r) := ⟨rfl, rfl⟩

/-- What arrives, if the packet fits on its way. -/
def Arrives (c : Call) (r : Receiver) : Prop :=
  ∃ q : Parts, c.arrival r = some q.bytes ∧ Judged c r q ∧ (¬ c.Rewritten → q.iv = wordBytes 8 c.fresh.1)

include moons receives

theorem clear_arrives (fits : c.size ≤ Packet.maxPacketLength) (direct : c.atAddress.isSet = true)
    (plain : c.encryptedHelloEnabled = false) : Arrives c r := by
  let p := helloParts c r
  obtain ⟨armored, q, sent, arrived, -, iv, addresses, flags, -, body⟩ := @poly1305_opens r.crypto c.senderFast
    r.fastCrypto (r.key c.self) r.identity r.privateKey c.ephemeral p c.relays false none none (fun wrong => nomatch wrong)
  have holds : HoldsHello c r q := ⟨addresses, (body rfl).trans rfl⟩
  have kept : q.flags &&& 0xf8 = sentFlags p.flags 0 false &&& 0xf8 := by
    rw [flags, nextHop_kept]
    rfl
  have cipher : Packet.cipher q.bytes = 0 := by
    rw [Packet.cipher, Parts.flags_bytes, (sentFlags_spec (.inl rfl) kept).1]
  refine ⟨q, ?_, ?_, fun _ => iv⟩
  · unfold Call.arrival sendHELLO
    dsimp only [Call.ends]
    rw [helloPacket_eq c r moons, if_pos fits, Option.bind_eq_bind, Option.bind_some, if_pos direct, plain]
    change (armor r.crypto c.senderFast c.ephemeral (r.key c.self) false false none r.identity p.bytes).bind _ = _
    rw [sent, Option.bind_some, if_pos direct, arrived]
  · apply judged_of_clear moons fits (receives.known.imp_right fun stranger => stranger.1) holds cipher
    intro aesKeys
    obtain ⟨armored', q', sent', arrived', opened, -, -, -, -, body'⟩ := @poly1305_opens r.crypto c.senderFast
      r.fastCrypto (r.key c.self) r.identity r.privateKey c.ephemeral p c.relays false none aesKeys
      (fun wrong => nomatch wrong)
    have same : q'.bytes = q.bytes := by
      rw [← arrived, ← arrived', Option.some.inj (sent.symm.trans sent')]
    rw [← body' rfl] at opened
    rw [← same]
    exact opened

include lawful ownKey

theorem encrypted_arrives (hidden : c.Hidden r) (fits : c.size + ephemeralPublicKeyLen ≤ Packet.maxPacketLength)
    (direct : c.atAddress.isSet = true) (encrypted : c.encryptedHelloEnabled = true) : Arrives c r := by
  let p := helloParts c r
  have small : c.size ≤ Packet.maxPacketLength := by omega
  have known : Acquainted r c.self :=
    receives.known.resolve_right fun stranger => absurd encrypted (by rw [stranger.2.2]; decide)
  have packet := helloPacket_eq c r moons
  rw [if_pos small] at packet
  have unlike := hidden direct encrypted _ packet
  have size : p.bytes.length = c.size := hello_length moons (helloParts_holds c r)
  obtain ⟨armored, arrived, q, sent, same, opened, ⟨iv, addresses, -⟩, arrivedIv, arrivedAddresses, flags, body⟩ :=
    outer_opens lawful c.senderFast r.fastCrypto (r.key c.self) r.identity r.privateKey c.ephemeral p c.relays none
      (some (r.aesKeys c.self)) (Nat.succ_pos _) ownKey (by rw [size]; exact fits)
  have verb := EncryptedHello.arrived_verb (p := p) (by rw [EncryptedHello.byteAt_verb]; rfl) (Nat.succ_pos _) body
  have cipher := EncryptedHello.arrived_cipher flags
  have proper : ¬ (0 : Byte) = 2 := by decide
  have holds : HoldsHello c r { q with body := p.body } := ⟨addresses, rfl⟩
  refine ⟨arrived, ?_, ?_, fun _ => arrivedIv⟩
  · unfold Call.arrival sendHELLO
    dsimp only [Call.ends]
    rw [packet, Option.bind_eq_bind, Option.bind_some, if_pos direct, encrypted]
    change (armor r.crypto c.senderFast c.ephemeral (r.key c.self) false true none r.identity p.bytes).bind _ = _
    rw [sent, Option.bind_some, if_pos direct, same]
  · apply judged_of_authentic moons small known holds (iv.trans arrivedIv.symm)
    unfold Receiver.tryDecode
    rw [cipher, if_neg proper, if_neg (fun clear => unlike (verb.mp clear.2)),
      decodeFromPeer_eq known arrivedAddresses holds]
    rw [if_neg (by decide)]
    exact opened

end Branches

section Switched

variable {c : Call} {r : Receiver} (lawful : r.crypto.Lawful) (moons : ∀ m ∈ c.worlds.moons, m.type = .moon)
  (notReserved : c.self.address.toNat / 2 ^ 32 ≠ 0xff) (switched : c.atAddress.isSet = false)
  (receives : Receives c r)

/-- The first byte of the sender's address, where a fragment has its indicator. -/
theorem indicator_of_addresses {q : Parts} {dest source : Address}
    (addresses : q.addresses = dest.appendTo ++ source.appendTo) (ordinary : source.toNat / 2 ^ 32 ≠ 0xff) :
    Packet.byteAt q.bytes 13 ≠ 0xff := by
  have first : Packet.byteAt q.bytes 13 = Packet.byteAt source.appendTo 0 := by
    have part : Packet.byteAt q.bytes 13 = Packet.byteAt (Packet.fieldAt q.bytes 8 10) 5 := by
      simp [Packet.byteAt, Packet.fieldAt]
    have length : dest.appendTo.length = 5 := wordBytes_length 5 dest
    rw [part, Parts.fieldAt_addresses, addresses, Packet.byteAt, List.getD_append_right _ _ _ _ (by omega), length]
    rfl
  intro reserved
  rw [first] at reserved
  have bound := source.isLt
  apply ordinary
  have value := congrArg BitVec.toNat reserved
  change (BitVec.ofNat 8 (source.toNat / 256 ^ 4)).toNat = 255 at value
  rw [BitVec.toNat_ofNat, Nat.mod_eq_of_lt (by omega)] at value
  exact value

/-- The packet as `Switch::send` leaves it, before it is cut into datagrams. -/
def outgoing (c : Call) (r : Receiver) : List Byte := (c.ends r).sentOver true c.path (helloParts c r).bytes

include moons switched

theorem switched_arrival (fits : c.size ≤ Packet.maxPacketLength) :
    c.arrival r = (reassemble (Fragmentation.transmit c.path.mtu (outgoing c r))).map incrementHops^[c.relays] := by
  have elsewhere : ¬ c.atAddress.isSet = true := by rw [switched]; decide
  unfold Call.arrival sendHELLO
  dsimp only [Call.ends]
  rw [helloPacket_eq c r moons, if_pos fits, Option.bind_eq_bind, Option.bind_some, if_neg elsewhere,
    Option.bind_some, if_neg elsewhere]
  change (reassemble (Fragmentation.transmit c.path.mtu (outgoing c r))).bind _ = _
  cases reassemble (Fragmentation.transmit c.path.mtu (outgoing c r)) <;> rfl

include notReserved

/-- What is sent as `q` arrives if it is carried. -/
theorem switched_arrives (fits : c.size ≤ Packet.maxPacketLength) {q : Parts} (sent : outgoing c r = q.bytes)
    (addresses : q.addresses = (helloParts c r).addresses) (size : q.body.length = (helloParts c r).body.length)
    (flagged : Packet.fragmented q.bytes = decide (c.path.mtu < c.size)) :
    (Carries c.path.mtu c.size → c.arrival r = some (incrementHops^[c.relays] q.bytes)) ∧
      (¬ Carries c.path.mtu c.size → c.arrival r = none) := by
  have length : q.bytes.length = c.size := by
    rw [Parts.length_bytes, size, ← Parts.length_bytes]
    exact hello_length moons (helloParts_holds c r)
  have whole := @reassemble_transmit c.path.mtu q.bytes
    (by rw [length, Call.size, Packet.minPacketLength]; omega) (by rw [length]; exact fits)
    (indicator_of_addresses addresses notReserved) (by rw [length]; exact flagged)
  rw [length] at whole
  rw [switched_arrival moons switched fits, sent]
  constructor
  · intro carried
    rw [(whole q.bytes).mpr ⟨rfl, carried⟩]
    rfl
  · intro lost
    cases joined : reassemble (Fragmentation.transmit c.path.mtu q.bytes) with
    | none => rfl
    | some data => exact absurd ((whole data).mp joined).2 lost

include receives

omit notReserved moons in
theorem acquainted_of_switched : Acquainted r c.self :=
  receives.known.resolve_right fun stranger => absurd stranger.2.1 (by rw [switched]; decide)

/-- Over a trusted path: the packet arrives in the clear, and unmarked but for the id of the path. -/
theorem trusted_arrives (fits : c.size ≤ Packet.maxPacketLength) (trusted : c.path.trustedPathId ≠ 0) :
    (Carries c.path.mtu c.size → Arrives c r) ∧ (¬ Carries c.path.mtu c.size → c.arrival r = none) := by
  let p := helloParts c r
  let q := overTrusted p (decide (c.path.mtu < c.size)) c.path.trustedPathId
  have size : p.bytes.length = c.size := hello_length moons (helloParts_holds c r)
  have sent : outgoing c r = q.bytes := by
    rw [outgoing, @sent_trusted (c.ends r) true p p c.path rfl trusted, size]
  obtain ⟨-, id, flagged⟩ := overTrusted_fields p (decide (c.path.mtu < c.size)) c.path.trustedPathId
  obtain ⟨carried, lost⟩ := switched_arrives moons notReserved switched fits sent rfl rfl flagged
  refine ⟨fun carries => ?_, lost⟩
  let arrived : Parts := { q with flags := nextHop^[c.relays] q.flags }
  have cipher : Packet.cipher arrived.bytes = 2 := by
    have kept : nextHop^[c.relays] q.flags &&& 0xf8 = q.flags &&& 0xf8 := nextHop_kept _ _
    have suite : ∀ first second : Byte, first &&& 0xf8 = second &&& 0xf8 → first &&& 0x38 = second &&& 0x38 := by
      intro first second same
      have narrow : ∀ octet : Byte, octet &&& 0xf8 &&& 0x38 = octet &&& 0x38 := by decide
      rw [← narrow first, ← narrow second, same]
    rw [Packet.cipher, Parts.flags_bytes, suite _ _ kept, ← Parts.flags_bytes q, ← Packet.cipher]
    exact (overTrusted_fields p _ _).1
  have tpid : Packet.trustedPathId arrived.bytes = c.path.trustedPathId := by
    rw [← id, Packet.trustedPathId, Packet.trustedPathId, Parts.fieldAt_mac, Parts.fieldAt_mac]
  have holds : HoldsHello c r arrived := ⟨rfl, rfl⟩
  refine ⟨arrived, ?_, ?_, fun _ => rfl⟩
  · rw [carried carries, incrementHops_bytes]
  · apply judged_of_authentic moons fits (acquainted_of_switched switched receives) holds rfl
    unfold Receiver.tryDecode
    rw [if_pos cipher, tpid, if_pos (receives.trusts trusted),
      decodeFromPeer_eq (acquainted_of_switched switched receives) holds.addresses holds (if_pos rfl)]

include lawful

/-- Over any other path: the packet arrives encrypted, and under AES-GMAC-SIV with another packet id. -/
theorem armored_arrives (fits : c.size ≤ Packet.maxPacketLength) (untrusted : c.path.trustedPathId = 0) :
    (Carries c.path.mtu c.size → Arrives c r) ∧ (¬ Carries c.path.mtu c.size → c.arrival r = none) := by
  let p := helloParts c r
  let f := decide (c.path.mtu < c.size)
  let marked : Parts := { p with flags := withFragmented p.flags f }
  have size : p.bytes.length = c.size := hello_length moons (helloParts_holds c r)
  have plain : p.flags = 0 := rfl
  have fresh : marked.flags &&& 0x07 = 0 := by
    change withFragmented p.flags f &&& 0x07 = 0
    rw [(withFragmented_spec p.flags f).1, plain]
    decide
  have clear : isEncrypted p.bytes = false := by
    rw [isEncrypted_bytes, plain]
    decide
  have armored := @armored_eq (c.ends r) true p clear f
  rw [setFragmented_bytes] at armored
  have opens (relays : Nat) := @armor_opens (c.ends r) lawful true marked relays fresh
  obtain ⟨whole, q, armors, same, -, addresses, flags, length, -⟩ := opens 0
  obtain ⟨whole', arrived, armors', same', opened, addresses', flags', -, iv, -⟩ :=
    opens c.relays
  have one : whole' = whole := Option.some.inj (armors'.symm.trans armors)
  have suite : (c.ends r).suite true = 1 ∨ (c.ends r).suite true = 3 := by
    unfold Ends.suite
    rw [if_pos rfl]
    split_ifs <;> decide
  have sent : outgoing c r = q.bytes := by
    rw [outgoing, sentOver_eq, size, untrusted, ← Ends.armored]
    exact armored.trans (by rw [armors, Option.getD_some]; exact same)
  have octet : q.flags &&& 0xf8 = sentFlags marked.flags ((c.ends r).suite true) false &&& 0xf8 := by
    rw [flags]
    rfl
  have flagged : Packet.fragmented q.bytes = decide (c.path.mtu < c.size) := by
    rw [fragmented_bytes, (sentFlags_spec ((c.ends r).suite_cases true) octet).2.1]
    exact (withFragmented_spec p.flags f).2.2
  obtain ⟨carried, lost⟩ := switched_arrives moons notReserved switched fits sent addresses length flagged
  refine ⟨fun carries => ?_, lost⟩
  have octet' : arrived.flags &&& 0xf8 = sentFlags marked.flags ((c.ends r).suite true) false &&& 0xf8 := by
    rw [flags', nextHop_kept]
  have cipher : Packet.cipher arrived.bytes = (c.ends r).suite true := by
    rw [Packet.cipher, Parts.flags_bytes, (sentFlags_spec ((c.ends r).suite_cases true) octet').1]
  have proper : (c.ends r).suite true ≠ 2 ∧ (c.ends r).suite true ≠ 0 := by
    rcases suite with one | three
    · rw [one]
      decide
    · rw [three]
      decide
  have holds : HoldsHello c r { arrived with body := marked.body } := ⟨addresses', rfl⟩
  have sameId : ({ arrived with body := marked.body } : Parts).iv = arrived.iv := rfl
  refine ⟨arrived, ?_, ?_, fun kept => iv fun three => kept ⟨switched, untrusted, ?_⟩⟩
  · rw [carried carries, ← same', one, ← same]
    rfl
  · apply judged_of_authentic moons fits (acquainted_of_switched switched receives) holds sameId
    unfold Receiver.tryDecode
    rw [cipher, if_neg proper.1, if_neg (fun hello => proper.2 hello.1),
      decodeFromPeer_eq (acquainted_of_switched switched receives) addresses' holds]
    rw [if_neg (by decide)]
    exact opened
  · unfold Ends.suite at three
    rw [if_pos rfl] at three
    by_contra old
    exact absurd ((if_neg old).symm.trans three) (by decide)

end Switched

section Mistaken

/-- The versions, the timestamp and the keys that a greeting tells of, as they stand in a packet. -/
def spoken (g : Greeting) : List Byte :=
  wordBytes 1 g.protoVersion ++ (wordBytes 1 g.vMajor ++ (wordBytes 1 g.vMinor ++ (wordBytes 2 g.vRevision ++
    (wordBytes 8 g.timestamp ++ (g.identity.address.appendTo ++ (wordBytes 1 (0 : Byte) ++
      wordBytes 64 g.identity.publicKey))))))

theorem spoken_length (g : Greeting) : (spoken g).length = 83 := by
  simp [spoken, Address.appendTo]

variable {r : Receiver} {peer : KnownPeer} {heard g : Greeting} {pid : BitVec 64} {ptr : Nat}
  {packet ok sent : List Byte}

/-- From VALID on, nothing that was read before is changed. -/
theorem valid_keeps (answered : r.valid peer heard pid ptr packet = some (.answered g ok sent)) :
    spoken g = spoken heard := by
  unfold Receiver.valid at answered
  obtain ⟨surface, -, answered⟩ := Option.bind_eq_some_iff.mp answered
  obtain ⟨planet, -, answered⟩ := Option.bind_eq_some_iff.mp answered
  obtain ⟨moons, -, answered⟩ := Option.bind_eq_some_iff.mp answered
  obtain ⟨made, -, answered⟩ := Option.bind_eq_some_iff.mp answered
  obtain ⟨out, -, answered⟩ := Option.bind_eq_some_iff.mp answered
  simp only [Option.pure_def, Option.some.injEq, HelloResult.answered.injEq] at answered
  rw [← answered.1]
  rfl

theorem identified_keeps {alreadyAuthenticated : Bool}
    (answered : r.identified alreadyAuthenticated heard pid ptr packet = some (.answered g ok sent)) :
    spoken g = spoken heard := by
  unfold Receiver.identified at answered
  split at answered
  · split_ifs at answered with authenticated other rate
    · exact valid_keeps answered
    · unfold Receiver.collision at answered
      obtain ⟨outp, -, answered⟩ := Option.bind_eq_some_iff.mp answered
      obtain ⟨out, -, answered⟩ := Option.bind_eq_some_iff.mp answered
      cases answered
    · cases answered
    · split at answered
      split_ifs at answered
      · exact valid_keeps answered
      · cases answered
  · split_ifs at answered with authenticated rate agreed
    · cases answered
    · split at answered
      split_ifs at answered
      · exact valid_keeps answered
      · cases answered
    · cases answered

/-- Whatever greeting is answered, the packet has it in the clear. -/
theorem doHELLO_hears {alreadyAuthenticated : Bool}
    (answered : (r.doHELLO packet alreadyAuthenticated).outcome = .returned (.answered g ok sent)) :
    Stands (spoken g) packet 28 := by
  unfold Receiver.doHELLO at answered
  obtain ⟨proto, protoRead, answered⟩ := Logged.bind_returned answered
  obtain ⟨major, majorRead, answered⟩ := Logged.bind_returned answered
  obtain ⟨minor, minorRead, answered⟩ := Logged.bind_returned answered
  obtain ⟨revision, revisionRead, answered⟩ := Logged.bind_returned answered
  obtain ⟨timestamp, timestampRead, answered⟩ := Logged.bind_returned answered
  obtain ⟨⟨⟨id, privateKey⟩, taken⟩, idRead, answered⟩ := Logged.bind_returned answered
  have whole : (r.identified alreadyAuthenticated ⟨proto, major, minor, revision, timestamp, id, .nil, 0, 0, []⟩
      (Packet.packetId packet) (41 + taken) packet) = some (.answered g ok sent) := by
    dsimp only at answered
    split_ifs at answered
    · cases answered
    · cases answered
    · exact Logged.ofOption_returned answered
  have identity : Stands (id.address.appendTo ++ (wordBytes 1 (0 : Byte) ++ wordBytes 64 id.publicKey)) packet 41 := by
    change Identity.deserializeAt packet 41 = .returned ((id, privateKey), taken) at idRead
    unfold Identity.deserializeAt at idRead
    split at idRead
    · rename_i address type addressRead typeRead
      split_ifs at idRead with unknown
      split at idRead
      · rename_i publicKey length keyRead _
        have same : id = ⟨address, publicKey⟩ := by
          split_ifs at idRead
          · split at idRead
            · cases idRead
              rfl
            · cases idRead
          · cases idRead
            rfl
        rw [same, stands_append, stands_append, ← not_not.mp unknown]
        exact ⟨@stands_of_atWord 5 _ _ _ addressRead, @stands_of_atWord 1 _ _ _ typeRead,
          @stands_of_atWord 64 _ _ _ keyRead⟩
      · cases idRead
    · cases idRead
  rw [identified_keeps whole, spoken, stands_append, stands_append, stands_append, stands_append, stands_append]
  exact ⟨@stands_of_atWord 1 _ _ _ (Logged.ofOption_returned protoRead),
    @stands_of_atWord 1 _ _ _ (Logged.ofOption_returned majorRead),
    @stands_of_atWord 1 _ _ _ (Logged.ofOption_returned minorRead),
    @stands_of_atWord 2 _ _ _ (Logged.ofOption_returned revisionRead),
    @stands_of_atWord 8 _ _ _ (Logged.ofOption_returned timestampRead), identity⟩

end Mistaken

namespace Call

variable (c : Call) (r : Receiver)

/-- The receiver learns what the sender tells, and answers. -/
def Recovered : Prop := ∃ arrived, c.arrival r = some arrived ∧ Answered r c.greeting arrived

/-- The ciphers at their work: the key streams of two packet ids are not the same over the list of moons, and the
ciphertext of a HELLO is not its plaintext, as far as the versions, the timestamp and the keys. -/
structure Separates : Prop where
  mask : c.Rewritten → ¬ c.SameMask r
  ciphertext : c.atAddress.isSet = true → c.encryptedHelloEnabled = true → ∀ outp arrived,
    helloPacket r.crypto (r.key c.self) c.fresh r.identity.address c.self c.worlds c.atAddress c.now = some outp →
      c.arrival r = some arrived → Packet.fieldAt arrived 28 83 ≠ Packet.fieldAt outp 28 83

end Call

section Result

variable {c : Call} {r : Receiver} (lawful : r.crypto.Lawful)
  (ownKey : firstHalf r.identity.publicKey = r.crypto.calcPubDH (firstHalf r.privateKey))
  (moons : ∀ m ∈ c.worlds.moons, m.type = .moon) (notReserved : c.self.address.toNat / 2 ^ 32 ≠ 0xff)
  (receives : Receives c r)

theorem fits_size (fits : c.Fits) : c.size ≤ Packet.maxPacketLength := by
  have room := fits.1
  split_ifs at room
  · omega
  · exact room

include lawful ownKey moons notReserved receives

theorem arrives_of_fits (fits : c.Fits) (hidden : c.Hidden r) : Arrives c r := by
  have small := fits_size fits
  cases direct : c.atAddress.isSet with
  | true =>
      cases encrypted : c.encryptedHelloEnabled with
      | true =>
          have room := fits.1
          rw [if_pos ⟨direct, encrypted⟩] at room
          exact encrypted_arrives lawful ownKey moons receives hidden room direct encrypted
      | false => exact clear_arrives moons receives small direct encrypted
  | false =>
      have carried := fits.2 direct
      by_cases untrusted : c.path.trustedPathId = 0
      · exact (armored_arrives lawful moons notReserved direct receives small untrusted).1 carried
      · exact (trusted_arrives moons notReserved direct receives small untrusted).1 carried

omit ownKey in
/-- What does not fit is not sent, or not put together again. -/
theorem fits_of_arrival {arrived : List Byte} (arrival : c.arrival r = some arrived) : c.Fits := by
  have small : c.size ≤ Packet.maxPacketLength := by
    by_contra large
    unfold Call.arrival sendHELLO at arrival
    dsimp only [Call.ends] at arrival
    rw [helloPacket_eq c r moons, if_neg large] at arrival
    cases arrival
  cases direct : c.atAddress.isSet with
  | true =>
      refine ⟨?_, fun switched => absurd (direct.symm.trans switched) (by decide)⟩
      split_ifs with encrypted
      · by_contra large
        have size : (helloParts c r).bytes.length = c.size := hello_length moons (helloParts_holds c r)
        have overflows := @armor_overflows r.crypto c.senderFast (r.key c.self) r.identity c.ephemeral
          (helloParts c r) none (by rw [size]; omega)
        unfold Call.arrival sendHELLO at arrival
        dsimp only [Call.ends] at arrival
        rw [helloPacket_eq c r moons, if_pos small, Option.bind_eq_bind, Option.bind_some, if_pos direct,
          encrypted.2, overflows] at arrival
        cases arrival
      · exact small
  | false =>
      refine ⟨?_, fun _ => ?_⟩
      · rw [if_neg (fun both => absurd (direct.symm.trans both.1) (by decide))]
        exact small
      · by_contra lost
        have none : c.arrival r = none := by
          by_cases untrusted : c.path.trustedPathId = 0
          · exact (armored_arrives lawful moons notReserved direct receives small untrusted).2 lost
          · exact (trusted_arrives moons notReserved direct receives small untrusted).2 lost
        rw [none] at arrival
        cases arrival

omit notReserved receives in
/-- An encrypted HELLO that looks like one in the clear is read as it is. -/
theorem mistaken_hears (fits : c.Fits) (mistaken : ¬ c.Hidden r) {arrived : List Byte}
    (arrival : c.arrival r = some arrived) (answered : Answered r c.greeting arrived) : ¬ c.Separates r := by
  intro separates
  unfold Call.Hidden at mistaken
  push Not at mistaken
  obtain ⟨direct, encrypted, outp, packet, unmasked⟩ := mistaken
  have small := fits_size fits
  have built := packet
  rw [helloPacket_eq c r moons, if_pos small] at built
  cases built
  have size : (helloParts c r).bytes.length = c.size := hello_length moons (helloParts_holds c r)
  have room := fits.1
  rw [if_pos ⟨direct, encrypted⟩] at room
  obtain ⟨armored, q, -, sent, same, -, -, -, addresses, flags, body⟩ :=
    outer_opens lawful c.senderFast r.fastCrypto (r.key c.self) r.identity r.privateKey c.ephemeral (helloParts c r)
      c.relays none none (Nat.succ_pos _) ownKey (by rw [size]; exact room)
  have sentOut : c.arrival r = some q.bytes := by
    unfold Call.arrival sendHELLO
    dsimp only [Call.ends]
    rw [packet, Option.bind_eq_bind, Option.bind_some, if_pos direct, encrypted]
    rw [sent, Option.bind_some, if_pos direct, same]
  cases Option.some.inj (arrival.symm.trans sentOut)
  have cipher := EncryptedHello.arrived_cipher flags
  have verb := (EncryptedHello.arrived_verb (p := helloParts c r) (by rw [EncryptedHello.byteAt_verb]; rfl)
    (Nat.succ_pos _) body).mpr unmasked
  obtain ⟨ok, reply, decoded, -⟩ := answered
  have proper : ¬ (0 : Byte) = 2 := by decide
  unfold Receiver.tryDecode at decoded
  rw [cipher, if_neg proper, if_pos ⟨rfl, verb⟩, guarded_answered] at decoded
  have heard := doHELLO_hears decoded
  have told : Stands (spoken c.greeting) (helloParts c r).bytes 28 := by
    have whole : clearBytes c = spoken c.greeting ++ ([0] ++ (c.atAddress.serialize ++
        (wordBytes 8 c.worlds.planet.id ++ wordBytes 8 c.worlds.planet.ts))) := by
      simp only [clearBytes, clearFields, spoken, Identity.serialize, List.flatten_cons, List.flatten_nil,
        List.append_nil, List.append_assoc]
      rfl
    rw [Stands, show 28 = 27 + 1 from rfl, ← List.drop_drop, Parts.drop_body, (helloParts_holds c r).body, whole,
      List.drop_one, List.tail_cons, List.append_assoc]
    exact List.prefix_append _ _
  have part {data : List Byte} (here : Stands (spoken c.greeting) data 28) :
      Packet.fieldAt data 28 83 = spoken c.greeting := by
    have length := spoken_length c.greeting
    have read := fieldAt_of_stands here (by intro empty; rw [empty] at length; cases length)
    rw [length] at read
    exact (fieldAt_some read).2.1.symm
  exact separates.ciphertext direct encrypted _ _ packet sentOut ((part heard).trans (part told).symm)

omit lawful ownKey moons notReserved receives in
/-- What arrives is recovered exactly if the reply fits and the key streams agree. -/
theorem recovered_of_arrives (arrives : Arrives c r) :
    c.Recovered r ↔ ReplyFits r c.greeting ∧ (c.Rewritten → c.SameMask r) := by
  obtain ⟨q, arrival, judged, kept⟩ := arrives
  have same : c.SameMask r ↔ ∀ i < 2 + 17 * c.moonCount, mask c r i = maskStream r.crypto (r.key c.self) q.iv i := by
    unfold Call.SameMask
    rw [arrival]
    constructor
    · intro agree
      have here := agree _ rfl
      rw [Parts.fieldAt_iv] at here
      exact here
    · intro agree arrived sent
      cases sent
      rw [Parts.fieldAt_iv]
      exact agree
  have recovered : c.Recovered r ↔ Answered r c.greeting q.bytes := by
    unfold Call.Recovered
    rw [arrival]
    constructor
    · rintro ⟨arrived, sent, answered⟩
      cases sent
      exact answered
    · exact fun answered => ⟨_, rfl, answered⟩
  unfold Judged at judged
  rw [recovered, judged, ← same]
  apply and_congr_right
  intro _
  refine ⟨fun agree _ => agree, fun agree => ?_⟩
  by_cases rewritten : c.Rewritten
  · exact agree rewritten
  · rw [same, kept rewritten]
    exact fun _ _ => rfl

end Result

/-- The receiver of a HELLO learns from it what the sender tells, and answers, if the packets fit, an encrypted HELLO
does not look like one in the clear, and the packet does not go through `Switch::send` to a peer that gets
AES-GMAC-SIV; and only then, if the ciphers do their work. -/
theorem hello_recovered (c : Call) (r : Receiver) (lawful : r.crypto.Lawful)
    (ownKey : firstHalf r.identity.publicKey = r.crypto.calcPubDH (firstHalf r.privateKey))
    (moons : ∀ m ∈ c.worlds.moons, m.type = .moon) (notReserved : c.self.address.toNat / 2 ^ 32 ≠ 0xff)
    (receives : Receives c r) :
    (c.Fits ∧ ReplyFits r c.greeting ∧ c.Hidden r ∧ ¬ c.Rewritten → c.Recovered r) ∧
      (c.Separates r → c.Recovered r → c.Fits ∧ ReplyFits r c.greeting ∧ c.Hidden r ∧ ¬ c.Rewritten) := by
  constructor
  · rintro ⟨fits, replyFits, hidden, kept⟩
    rw [recovered_of_arrives (arrives_of_fits lawful ownKey moons notReserved receives fits hidden)]
    exact ⟨replyFits, fun rewritten => absurd rewritten kept⟩
  · intro separates recovered
    have fits : c.Fits := by
      obtain ⟨arrived, arrival, -⟩ := recovered
      exact fits_of_arrival lawful moons notReserved receives arrival
    have hidden : c.Hidden r := by
      by_contra mistaken
      obtain ⟨arrived, arrival, answered⟩ := recovered
      exact mistaken_hears lawful ownKey moons fits mistaken arrival answered separates
    rw [recovered_of_arrives (arrives_of_fits lawful ownKey moons notReserved receives fits hidden)] at recovered
    exact ⟨fits, recovered.1, hidden, fun rewritten => separates.mask rewritten (recovered.2 rewritten)⟩

section Small

/-- Node 2 greets node 1 through `Switch::send`, and has nothing to tell of but a planet. -/
def smallCall (vProto : BitVec 16) : Call where
  encryptedHelloEnabled := false
  fresh := (0x0102030405060708, 0)
  ephemeral := 5
  self := ⟨2, 0⟩
  worlds := ⟨World.new, [], []⟩
  atAddress := .nil
  now := 1000
  vProto := vProto
  senderFast := true
  path := defaultPath
  relays := 0

/-- Node 1, which knows node 2. -/
def smallReceiver : Receiver where
  crypto := software
  fastCrypto := false
  identity := nodeOne
  privateKey := 0
  agree := fun _ => true
  key := fun _ => 77
  aesKeys := fun _ => (2 ^ 200, 2 ^ 40)
  getPeer := fun address => if address = 2 then some ⟨⟨2, 0⟩, protoVersion.setWidth 16⟩ else none
  shouldInboundPathBeTrusted := fun _ => false
  lz4 := fun _ => none
  rateGateIdentityVerification := true
  locallyValidate := fun _ => true
  pathAddress := .nil
  planet := World.new
  moons := []
  fresh := (9, 0)

theorem smallCall_receives (vProto : BitVec 16) : Receives (smallCall vProto) smallReceiver :=
  ⟨.inl ⟨_, rfl⟩, fun trusted => absurd rfl trusted⟩

theorem smallCall_fits (vProto : BitVec 16) : (smallCall vProto).Fits := by
  refine ⟨?_, fun _ => .inl ?_⟩
  · rw [if_neg (fun both => absurd (show InetAddress.isSet .nil = true from both.1) (by decide))]
    change 131 ≤ 10024
    decide
  · change 131 ≤ defaultPath.mtu
    decide

theorem smallCall_hidden (vProto : BitVec 16) : (smallCall vProto).Hidden smallReceiver :=
  fun direct => absurd direct (by change ¬ InetAddress.isSet .nil = true; decide)

theorem smallCall_replyFits (vProto : BitVec 16) : ReplyFits smallReceiver (smallCall vProto).greeting := by
  change 53 ≤ 10024
  decide

/-- A peer that is not known to support AES-GMAC-SIV. -/
theorem small_hello_recovered : (smallCall 11).Recovered smallReceiver := by
  apply (hello_recovered (smallCall 11) smallReceiver software_lawful nodeOne_key (fun _ moon => nomatch moon)
    (by decide) (smallCall_receives 11)).1
  exact ⟨smallCall_fits 11, smallCall_replyFits 11, smallCall_hidden 11, fun rewritten =>
    absurd rewritten.2.2 (by decide)⟩

/-- A peer that is. -/
theorem small_hello_garbled :
    (smallCall 13).Fits ∧ ReplyFits smallReceiver (smallCall 13).greeting ∧ Receives (smallCall 13) smallReceiver ∧
      ¬ (smallCall 13).Recovered smallReceiver := by
  refine ⟨smallCall_fits 13, smallCall_replyFits 13, smallCall_receives 13, ?_⟩
  have arrives : Arrives (smallCall 13) smallReceiver :=
    arrives_of_fits software_lawful nodeOne_key (fun _ moon => nomatch moon) (by decide) (smallCall_receives 13)
      (smallCall_fits 13) (smallCall_hidden 13)
  have other : ((smallCall 13).arrival smallReceiver).map (fun arrived =>
      decide (maskStream software 77 (Packet.fieldAt arrived 0 8) 0 =
        maskStream software 77 (wordBytes 8 (smallCall 13).fresh.1) 0)) = some false := by decide +kernel
  rw [recovered_of_arrives arrives]
  rintro ⟨-, agree⟩
  obtain ⟨q, arrival, -, -⟩ := arrives
  have same := agree ⟨rfl, rfl, by decide⟩ _ arrival 0 (by decide)
  rw [arrival, Option.map_some] at other
  exact absurd same.symm (of_decide_eq_false (Option.some.inj other))

end Small

end ZeroTierNode.HelloRoundTrip
