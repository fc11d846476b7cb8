import ZeroTierNode.BroadcastPaths
import ZeroTierNode.CredentialDelivery
import ZeroTierNode.PeerBinding

/-!
The greeting of two nodes: `Peer::sendHELLO`, and `IncomingPacket::_doHELLO` up to
the reply. The list of moons is masked with a key stream that starts from the packet
id, whatever else `armor` does to the packet.
-/

namespace ZeroTierNode.Hello
open Library.Bytes Library.Ciphers Library.Outcomes Buffer Armor BroadcastPaths CredentialPush

/-- `ZT_PROTO_VERSION` and the version of the code. -/
abbrev protoVersion : Byte := 13
abbrev versionMajor : Byte := 1
abbrev versionMinor : Byte := 16
abbrev versionRevision : BitVec 16 := 1

/-- `VERB_HELLO`, `VERB_ERROR` and `VERB_OK`. -/
abbrev verbHello : Byte := 0x01
abbrev verbError : Byte := 0x02
abbrev verbOk : Byte := 0x03

/-- What a HELLO tells. -/
structure Greeting where
  protoVersion : Byte
  vMajor : Byte
  vMinor : Byte
  vRevision : BitVec 16
  timestamp : BitVec 64
  identity : Identity
  externalSurfaceAddress : InetAddress
  planetWorldId : BitVec 64
  planetWorldTimestamp : BitVec 64
  moonIdsAndTimestamps : List (BitVec 64 × BitVec 64)
deriving DecidableEq

/-- `Packet::cryptField`. -/
def cryptField (crypto : Primitives) (key : BitVec 384) (data : List Byte) (start len : Nat) : List Byte :=
  let iv := (Packet.fieldAt data 0 8).set 7 (Packet.byteAt data 7 &&& 0xf8)
  let stream := crypto.salsa2012 ((wordBytes 48 key).take 32) iv
  data.take start ++ xorStream stream (Packet.fieldAt data start len) ++ data.drop (start + len)

section Sending

/-- The worlds that a node knows of, and the moons that it looks for. -/
structure Worlds where
  planet : World
  moons : List World
  moonsWanted : List (BitVec 64)

/-- What `sendHELLO` is about to tell. -/
def greeting (self : Identity) (worlds : Worlds) (atAddress : InetAddress) (now : BitVec 64) : Greeting :=
  ⟨protoVersion, versionMajor, versionMinor, versionRevision, now, self, atAddress, worlds.planet.id, worlds.planet.ts,
    worlds.moons.map (fun m => (m.id, m.ts)) ++ worlds.moonsWanted.map (fun m => (m, 0))⟩

/-- The fields before the list of moons. -/
def clearFields (self : Identity) (worlds : Worlds) (atAddress : InetAddress) (now : BitVec 64) : List (List Byte) :=
  [wordBytes 1 protoVersion, wordBytes 1 versionMajor, wordBytes 1 versionMinor, wordBytes 2 versionRevision,
    wordBytes 8 now, self.serialize, atAddress.serialize, wordBytes 8 worlds.planet.id, wordBytes 8 worlds.planet.ts]

/-- A moon in the list: type, id and timestamp. -/
def moonFields (type : World.Kind) (id ts : BitVec 64) : List (List Byte) :=
  [wordBytes 1 type.toByte, wordBytes 8 id, wordBytes 8 ts]

/-- The fields from the list of moons on. -/
def maskedFields (worlds : Worlds) : List (List Byte) :=
  [count16 (worlds.moons.length + worlds.moonsWanted.length)] ++
    worlds.moons.flatMap (fun m => moonFields m.type m.id m.ts) ++
    worlds.moonsWanted.flatMap (fun m => moonFields .moon m 0)

/-- The packet of `sendHELLO` before it is armored; `append` throws when the packet is full. -/
def helloPacket (crypto : Primitives) (key : BitVec 384) (fresh : BitVec 64 × BitVec 64) (dest : Address)
    (self : Identity) (worlds : Worlds) (atAddress : InetAddress) (now : BitVec 64) : Option (List Byte) := do
  let outp ← (clearFields self worlds atAddress now).foldlM append (newPacket fresh.1 fresh.2 dest self.address verbHello)
  let startCryptedPortionAt := outp.length
  let outp ← (maskedFields worlds).foldlM append outp
  return cryptField crypto key outp startCryptedPortionAt (outp.length - startCryptedPortionAt)

/-- `Peer::sendHELLO`: the packet that leaves, to an address or through `Switch::send` over a path. -/
def sendHELLO (ends : Ends) (encryptedHelloEnabled : Bool) (fresh : BitVec 64 × BitVec 64) (self : Identity)
    (worlds : Worlds) (atAddress : InetAddress) (now : BitVec 64) (path : LivePath) : Option (List Byte) := do
  let outp ← helloPacket ends.crypto ends.key fresh ends.identity.address self worlds atAddress now
  if atAddress.isSet then
    armor ends.crypto ends.senderFast ends.ephemeral ends.key false encryptedHelloEnabled none ends.identity outp
  else some (ends.sentOver true path outp)

end Sending

/-- A peer as the receiver knows it. -/
structure KnownPeer where
  identity : Identity
  vProto : BitVec 16

/-- The receiving node as far as `_doHELLO` asks it. -/
structure Receiver where
  crypto : Primitives
  fastCrypto : Bool
  identity : Identity
  privateKey : BitVec 512
  /-- Key agreement with our own identity: whether it works, the key, and the keys made of that. -/
  agree : Identity → Bool
  key : Identity → BitVec 384
  aesKeys : Identity → AesKeys
  getPeer : Address → Option KnownPeer
  shouldInboundPathBeTrusted : BitVec 64 → Bool
  lz4 : List Byte → Option (List Byte)
  rateGateIdentityVerification : Bool
  locallyValidate : Identity → Bool
  /-- The address at the other end of the path. -/
  pathAddress : InetAddress
  planet : World
  moons : List World
  /-- The random bytes of the packet that is sent back. -/
  fresh : BitVec 64 × BitVec 64

inductive HelloResult
  /-- Nothing is learned, and nothing sent. -/
  | dropped
  /-- The address belongs to another identity; the sender is told. -/
  | collided (sent : List Byte)
  /-- The HELLO is accepted: what it told, the reply, and the reply as it is sent. -/
  | answered (greeting : Greeting) (ok sent : List Byte)

namespace KnownPeer

/-- `Peer::aesKeysIfSupported`. -/
def aesKeysIfSupported (peer : KnownPeer) (aesKeys : Identity → AesKeys) : Option AesKeys :=
  if 12 ≤ peer.vProto.toNat then some (aesKeys peer.identity) else none

/-- The constructor of `Peer`. -/
def new (identity : Identity) : KnownPeer := ⟨identity, 0⟩

end KnownPeer

section Reading

/-- The external surface address, if present. -/
def readSurface (data : List Byte) (ptr : Nat) : Option (InetAddress × Nat) :=
  if ptr < data.length then do
    let (externalSurfaceAddress, taken) ← InetAddress.deserialize data ptr
    return (externalSurfaceAddress, ptr + taken)
  else some (.nil, ptr)

/-- World id and timestamp of the planet, if present. -/
def readPlanet (data : List Byte) (ptr : Nat) : Option ((BitVec 64 × BitVec 64) × Nat) :=
  if ptr + 16 ≤ data.length then do
    let planetWorldId ← at64 data ptr
    let planetWorldTimestamp ← at64 data (ptr + 8)
    return ((planetWorldId, planetWorldTimestamp), ptr + 16)
  else some ((0, 0), ptr)

/-- The loop over the worlds in the list; those that are no moons are skipped unread. -/
def readMoons (data : List Byte) : Nat → Nat → Option (List (BitVec 64 × BitVec 64))
  | 0, _ => some []
  | count + 1, ptr => do
      let type ← at8 data ptr
      if type = 127 then do
        let id ← at64 data (ptr + 1)
        let ts ← at64 data (ptr + 9)
        let moons ← readMoons data count (ptr + 17)
        return (id, ts) :: moons
      else readMoons data count (ptr + 17)

/-- The remainder of the packet, if present, is encrypted. -/
def readMasked (crypto : Primitives) (key : BitVec 384) (data : List Byte) (ptr : Nat) :
    Option (List (BitVec 64 × BitVec 64)) :=
  if ptr < data.length then
    let data := cryptField crypto key data ptr (data.length - ptr)
    if ptr + 2 ≤ data.length then do
      let numMoons ← at16 data ptr
      readMoons data numMoons.toNat (ptr + 2)
    else some []
  else some []

end Reading

/-- A moon in the reply, if it is newer than the first with its id in the list. -/
def Greeting.moonUpdate (g : Greeting) (m : World) : List (List Byte) :=
  match g.moonIdsAndTimestamps.find? fun i => i.1 = m.id with
  | some i => if i.2 < m.ts then [m.serialize false] else []
  | none => []

namespace Receiver

variable (r : Receiver)

/-- The planet in the reply, if it is newer than the one that the HELLO tells of. -/
def planetUpdate (g : Greeting) : List (List Byte) :=
  if g.planetWorldId ≠ 0 ∧ g.planetWorldTimestamp < r.planet.ts ∧ g.planetWorldId = r.planet.id then
    [r.planet.serialize false]
  else []

def updates (g : Greeting) : List (List Byte) := r.planetUpdate g ++ r.moons.flatMap g.moonUpdate

/-- The fields of the reply before the worlds. -/
def okFields (pid timestamp : BitVec 64) : List (List Byte) :=
  [wordBytes 1 verbHello, wordBytes 8 pid, wordBytes 8 timestamp, wordBytes 1 protoVersion, wordBytes 1 versionMajor,
    wordBytes 1 versionMinor, wordBytes 2 versionRevision, r.pathAddress.serialize]

/-- OK(HELLO) before it is armored. -/
def okHELLO (pid : BitVec 64) (g : Greeting) : Option (List Byte) := do
  let outp ← (r.okFields pid g.timestamp).foldlM append
    (newPacket r.fresh.1 r.fresh.2 g.identity.address r.identity.address verbOk)
  let worldUpdateSizeAt := outp.length
  let outp ← append outp [0, 0]
  let outp ← (r.updates g).foldlM append outp
  return setAt16 outp worldUpdateSizeAt (BitVec.ofNat 16 (outp.length - (worldUpdateSizeAt + 2)))

/-- `armor` of what is sent back. -/
def armored (key : BitVec 384) (aesKeys : Option AesKeys) (identity : Identity) (outp : List Byte) :
    Option (List Byte) :=
  armor r.crypto r.fastCrypto 0 key true false aesKeys identity outp

/-- ERROR(HELLO) for an address that is taken. -/
def collision (peer : KnownPeer) (id : Identity) (pid : BitVec 64) : Option HelloResult := do
  let outp ← [[verbHello], wordBytes 8 pid, [0x04]].foldlM append
    (newPacket r.fresh.1 r.fresh.2 id.address r.identity.address verbError)
  let sent ← r.armored (r.key id) (peer.aesKeysIfSupported r.aesKeys) peer.identity outp
  return .collided sent

/-- `dearmor` with the key that is shared with an identity. -/
def dearmored (peer : KnownPeer) (key : BitVec 384) (packet : List Byte) : Bool × List Byte :=
  dearmor r.crypto r.fastCrypto key (peer.aesKeysIfSupported r.aesKeys) r.privateKey packet

/-- `_doHELLO` from VALID on: `head` is what was read before, `ptr` the end of the identity. -/
def valid (peer : KnownPeer) (head : Greeting) (pid : BitVec 64) (ptr : Nat) (data : List Byte) :
    Option HelloResult := do
  let (externalSurfaceAddress, ptr) ← readSurface data ptr
  let (planetWorld, ptr) ← readPlanet data ptr
  let moonIdsAndTimestamps ← readMasked r.crypto (r.key peer.identity) data ptr
  let g : Greeting :=
    { head with
      externalSurfaceAddress := externalSurfaceAddress
      planetWorldId := planetWorld.1
      planetWorldTimestamp := planetWorld.2
      moonIdsAndTimestamps := moonIdsAndTimestamps }
  let ok ← r.okHELLO pid g
  let sent ← r.armored (r.key peer.identity) (peer.aesKeysIfSupported r.aesKeys) peer.identity ok
  return .answered g ok sent

/-- `_doHELLO` between the identity and VALID. -/
def identified (alreadyAuthenticated : Bool) (head : Greeting) (pid : BitVec 64) (ptr : Nat) (packet : List Byte) :
    Option HelloResult :=
  match r.getPeer head.identity.address with
  | some peer =>
      if alreadyAuthenticated then r.valid peer head pid ptr packet
      else if peer.identity ≠ head.identity then
        if r.rateGateIdentityVerification ∧ r.agree head.identity ∧
            (r.dearmored peer (r.key head.identity) packet).1 then r.collision peer head.identity pid
        else some .dropped
      else
        let (authentic, plain) := r.dearmored peer (r.key peer.identity) packet
        if authentic then r.valid peer head pid ptr plain else some .dropped
  | none =>
      if alreadyAuthenticated then some .dropped
      else if ¬r.rateGateIdentityVerification then some .dropped
      else if ¬r.agree head.identity then none
      else
        let (authentic, plain) := r.dearmored (KnownPeer.new head.identity) (r.key head.identity) packet
        if authentic ∧ r.locallyValidate head.identity then
          r.valid (KnownPeer.new head.identity) head pid ptr plain
        else some .dropped

/-- `IncomingPacket::_doHELLO`. -/
def doHELLO (packet : List Byte) (alreadyAuthenticated : Bool) : Reading HelloResult := do
  let protoVersion ← plainly (at8 packet 28)
  let vMajor ← plainly (at8 packet 29)
  let vMinor ← plainly (at8 packet 30)
  let vRevision ← plainly (at16 packet 31)
  let timestamp ← plainly (at64 packet 33)
  let ((id, _), taken) ← Identity.deserialize packet 41
  if protoVersion.toNat < 4 then return .dropped
  else if Packet.source packet ≠ id.address then return .dropped
  else
    plainly (r.identified alreadyAuthenticated
      ⟨protoVersion, vMajor, vMinor, vRevision, timestamp, id, .nil, 0, 0, []⟩ (Packet.packetId packet) (41 + taken)
      packet)

/-- `tryDecode` from the lookup of the peer on, for a HELLO. -/
def decodeFromPeer (packet : List Byte) (authenticated : Bool) : Reading HelloResult :=
  match r.getPeer (Packet.source packet) with
  | none => return .dropped
  | some peer =>
      let (authentic, data) :=
        if authenticated then (true, packet)
        else
          dearmor r.crypto r.fastCrypto (r.key peer.identity) (some (r.aesKeys peer.identity)) r.privateKey packet
      if authentic then
        match Packet.uncompress r.lz4 data with
        | none => return .dropped
        | some plain => if Packet.verb plain = verbHello then r.doHELLO plain true else return .dropped
      else return .dropped

/-- `IncomingPacket::tryDecode`, as far as it leads to `_doHELLO`. -/
def tryDecode (packet : List Byte) : Reading HelloResult :=
  Logged.guarded .dropped (
    if Packet.cipher packet = 2 then
      if r.shouldInboundPathBeTrusted (Packet.trustedPathId packet) then r.decodeFromPeer packet true
      else return .dropped
    else if Packet.cipher packet = 0 ∧ Packet.verb packet = verbHello then r.doHELLO packet false
    else r.decodeFromPeer packet false)

end Receiver

section Masks

/-- The key stream over the list of moons. -/
def maskStream (crypto : Primitives) (key : BitVec 384) (iv : List Byte) : Nat → Byte :=
  crypto.salsa2012 ((wordBytes 48 key).take 32) (iv.set 7 (Packet.byteAt iv 7 &&& 0xf8))

/-- `cryptField` on the end of a packet. -/
theorem cryptField_tail (crypto : Primitives) (key : BitVec 384) (p : Parts) {clear tail : List Byte}
    (cut : p.bytes = clear ++ tail) :
    cryptField crypto key p.bytes clear.length (p.bytes.length - clear.length) =
      clear ++ xorStream (maskStream crypto key p.iv) tail := by
  have octet : Packet.byteAt p.bytes 7 = Packet.byteAt p.iv 7 := by
    rw [Packet.byteAt, Parts.bytes, List.getD_append _ _ _ _ (by rw [p.ivLength]; decide)]
    rfl
  have all : Packet.fieldAt (clear ++ tail) clear.length ((clear ++ tail).length - clear.length) = tail := by
    rw [Packet.fieldAt, List.drop_left, List.length_append, Nat.add_sub_cancel_left, List.take_length]
  unfold cryptField
  dsimp only
  rw [Parts.fieldAt_iv, octet, cut, all, List.take_left, Nat.add_sub_cancel' (by rw [List.length_append]; omega),
    List.drop_length, List.append_nil]
  rfl

/-- What is masked with one key stream and unmasked with another is the same exactly if they agree there. -/
theorem xorStream_unmask (first second : Nat → Byte) (data : List Byte) :
    xorStream second (xorStream first data) = data ↔ ∀ i < data.length, first i = second i := by
  have length : (xorStream second (xorStream first data)).length = data.length := by
    rw [length_xorStream, length_xorStream]
  have byte (i : Nat) (inside : i < data.length) (here : i < (xorStream second (xorStream first data)).length) :
      (xorStream second (xorStream first data))[i] = data[i] ^^^ first i ^^^ second i := by
    simp only [xorStream, List.getElem_mapIdx]
  constructor
  · intro same i inside
    have here := byte i inside (by rw [length]; exact inside)
    simp only [same] at here
    rw [BitVec.xor_assoc] at here
    have zero : first i ^^^ second i = 0 := by
      have again := congrArg (fun b => data[i] ^^^ b) here
      simp only [← BitVec.xor_assoc, BitVec.xor_self, BitVec.zero_xor] at again
      exact again.symm
    exact BitVec.xor_eq_zero_iff.mp zero
  · intro agree
    apply List.ext_getElem
    · exact length
    · intro i here inside
      rw [byte i inside here, agree i inside, BitVec.xor_assoc, BitVec.xor_self, BitVec.xor_zero]

end Masks

section Moons

/-- A moon as it stands in the list. -/
def moonBytes (moon : BitVec 64 × BitVec 64) : List Byte := (moonFields .moon moon.1 moon.2).flatten

theorem length_moonBytes (moon : BitVec 64 × BitVec 64) : (moonBytes moon).length = 17 := by
  simp [moonBytes, moonFields]

theorem length_moons (moons : List (BitVec 64 × BitVec 64)) : (moons.flatMap moonBytes).length = 17 * moons.length := by
  induction moons with
  | nil => rfl
  | cons moon moons ih =>
      rw [List.flatMap_cons, List.length_append, length_moonBytes, ih, List.length_cons]
      omega

theorem moon_of_stands {moon : BitVec 64 × BitVec 64} {rest data : List Byte} {p : Nat}
    (here : Stands (moonBytes moon ++ rest) data p) :
    at8 data p = some 127 ∧ at64 data (p + 1) = some moon.1 ∧ at64 data (p + 9) = some moon.2 ∧
      Stands rest data (p + 17) := by
  simp only [moonBytes, moonFields, List.flatten_cons, List.flatten_nil, List.append_nil, List.append_assoc] at here
  obtain ⟨type, here⟩ := atWord_of_stands (by decide : 8 ≤ 8 * 1) (by decide) here
  obtain ⟨id, here⟩ := atWord_of_stands (by decide : 64 ≤ 8 * 8) (by decide) here
  obtain ⟨ts, here⟩ := atWord_of_stands (by decide : 64 ≤ 8 * 8) (by decide) here
  exact ⟨type, id, ts, here⟩

theorem readMoons_of_stands {moons : List (BitVec 64 × BitVec 64)} {rest data : List Byte} {p : Nat}
    (here : Stands (moons.flatMap moonBytes ++ rest) data p) : readMoons data moons.length p = some moons := by
  induction moons generalizing p with
  | nil => rfl
  | cons moon moons ih =>
      rw [List.flatMap_cons, List.append_assoc] at here
      obtain ⟨type, id, ts, here⟩ := moon_of_stands here
      rw [List.length_cons, readMoons, type, Option.bind_eq_bind, Option.bind_some, if_pos rfl, id, ts, ih here]
      rfl

/-- The last record that is read begins inside the packet. -/
theorem readMoons_inside {data : List Byte} {count p : Nat} {moons : List (BitVec 64 × BitVec 64)}
    (read : readMoons data (count + 1) p = some moons) : p + 17 * count < data.length := by
  induction count generalizing p moons with
  | zero =>
      rw [readMoons, Option.bind_eq_bind, Option.bind_eq_some_iff] at read
      obtain ⟨type, here, -⟩ := read
      have inside := atWord_inside here
      omega
  | succ count ih =>
      rw [readMoons, Option.bind_eq_bind, Option.bind_eq_some_iff] at read
      obtain ⟨type, -, read⟩ := read
      have later : ∃ others, readMoons data (count + 1) (p + 17) = some others := by
        split at read
        · simp only [Option.bind_eq_bind, Option.bind_eq_some_iff] at read
          obtain ⟨id, -, ts, -, others, found, -⟩ := read
          exact ⟨others, found⟩
        · exact ⟨moons, read⟩
      obtain ⟨others, found⟩ := later
      have inside := ih found
      omega

theorem readMoons_length {data : List Byte} {count p : Nat} {moons : List (BitVec 64 × BitVec 64)}
    (read : readMoons data count p = some moons) : moons.length ≤ count := by
  induction count generalizing p moons with
  | zero =>
      cases read
      exact Nat.le_refl 0
  | succ count ih =>
      rw [readMoons, Option.bind_eq_bind, Option.bind_eq_some_iff] at read
      obtain ⟨type, -, read⟩ := read
      split at read
      · simp only [Option.bind_eq_bind, Option.bind_eq_some_iff] at read
        obtain ⟨id, -, ts, -, others, found, same⟩ := read
        cases same
        exact Nat.succ_le_succ (ih found)
      · exact Nat.le_succ_of_le (ih read)

/-- Bytes that a word was read from are its bytes. -/
theorem stands_of_atWord {count : Nat} {word : BitVec (8 * count)} {data : List Byte} {p : Nat}
    (read : atWord (8 * count) count data p = some word) : Stands (wordBytes count word) data p := by
  rw [atWord, Option.map_eq_some_iff] at read
  obtain ⟨bytes, found, rfl⟩ := read
  obtain ⟨-, cut, length⟩ := fieldAt_some found
  have same : wordBytes count (wordOf (8 * count) bytes) = bytes := by
    rw [← length]
    exact wordBytes_wordOf bytes
  rw [same, cut]
  exact List.take_prefix _ _

/-- The other way round, if every record is a moon. -/
theorem stands_of_readMoons {data : List Byte} {count p : Nat} {moons : List (BitVec 64 × BitVec 64)}
    (read : readMoons data count p = some moons) (every : moons.length = count) :
    Stands (moons.flatMap moonBytes) data p := by
  induction count generalizing p moons with
  | zero =>
      cases read
      exact List.nil_prefix
  | succ count ih =>
      rw [readMoons, Option.bind_eq_bind, Option.bind_eq_some_iff] at read
      obtain ⟨type, typeRead, read⟩ := read
      split at read
      · rename_i moon
        simp only [Option.bind_eq_bind, Option.bind_eq_some_iff] at read
        obtain ⟨id, idRead, ts, tsRead, others, found, same⟩ := read
        cases same
        have later := ih found (Nat.succ.inj every)
        rw [List.flatMap_cons, stands_append, length_moonBytes]
        refine ⟨?_, later⟩
        rw [moon] at typeRead
        simp only [moonBytes, moonFields, List.flatten_cons, List.flatten_nil, List.append_nil]
        rw [stands_append, stands_append, wordBytes_length, wordBytes_length]
        exact ⟨@stands_of_atWord 1 _ _ _ typeRead, @stands_of_atWord 8 _ _ _ idRead, @stands_of_atWord 8 _ _ _ tsRead⟩
      · have short := readMoons_length read
        omega

end Moons

end ZeroTierNode.Hello
