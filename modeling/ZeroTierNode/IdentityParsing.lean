import ZeroTierNode.Library.Outcomes
import ZeroTierNode.InetAddress
import ZeroTierNode.Packet

/-!
Identities read from packets, worlds and the peer cache. `Identity::deserialize`
ends the process at a type it does not know and at a private key of the wrong
length; everything else that is wrong is thrown and caught by its callers.
-/

namespace ZeroTierNode
open Library.Bytes Library.Outcomes Buffer

/-- A buffer and the position in it from which an identity is read. -/
abbrev Blob := List Byte × Nat

/-- Code that reads identities. -/
abbrev Reading := Logged Blob

/-- Code that reads no identity and throws where it has no value. -/
abbrev plainly {α : Type} (value : Option α) : Reading α := Logged.ofOption value

namespace Identity

/-- `Identity::deserialize`: the identity, its private key if there is one, and the number of bytes. -/
def deserializeAt (b : List Byte) (startAt : Nat) : Outcome ((Identity × Option (BitVec 512)) × Nat) :=
  match Address.readAt b startAt, at8 b (startAt + 5) with
  | some address, some type =>
      if type ≠ 0 then .aborted
      else
        match atWord 512 64 b (startAt + 6), at8 b (startAt + 70) with
        | some publicKey, some privateKeyLength =>
            if privateKeyLength ≠ 0 then
              if privateKeyLength ≠ 64 then .aborted
              else
                match atWord 512 64 b (startAt + 71) with
                | some privateKey => .returned ((⟨address, publicKey⟩, some privateKey), 135)
                | none => .threw
            else .returned ((⟨address, publicKey⟩, none), 71)
        | _, _ => .threw
  | _, _ => .threw

def deserialize (b : List Byte) (startAt : Nat) : Reading ((Identity × Option (BitVec 512)) × Nat) :=
  ⟨deserializeAt b startAt, [(b, startAt)]⟩

/-- The type, if there is one, is 0, and the length of the private key is 0 or 64. -/
def Plain (blob : Blob) : Prop :=
  (∀ type, at8 blob.1 (blob.2 + 5) = some type → type = 0) ∧
    ∀ privateKeyLength, at8 blob.1 (blob.2 + 70) = some privateKeyLength →
      privateKeyLength = 0 ∨ privateKeyLength = 64

end Identity

namespace World

inductive Kind
  | null | planet | moon
deriving DecidableEq, Repr

def readKind (type : Byte) : Option Kind :=
  if type = 0 then some .null else if type = 1 then some .planet else if type = 127 then some .moon else none

structure Root where
  identity : Identity
  stableEndpoints : List InetAddress

end World

/-- A planet or a moon: the definition of a set of roots. -/
structure World where
  type : World.Kind
  id : BitVec 64
  ts : BitVec 64
  updatesMustBeSignedBy : BitVec 512
  signature : Signature
  roots : List World.Root

namespace World

/-- `ZT_WORLD_MAX_ROOTS` and `ZT_WORLD_MAX_STABLE_ENDPOINTS_PER_ROOT`. -/
abbrev maxRoots : Nat := 4
abbrev maxStableEndpointsPerRoot : Nat := 32

/-- The inner loop of `deserialize`: the endpoints and the position behind them. -/
def readEndpoints (b : List Byte) : Nat → Nat → Option (List InetAddress × Nat)
  | 0, p => some ([], p)
  | count + 1, p => do
      let (endpoint, taken) ← InetAddress.deserialize b p
      let (endpoints, behind) ← readEndpoints b count (p + taken)
      return (endpoint :: endpoints, behind)

/-- The outer loop of `deserialize`. -/
def readRoots (b : List Byte) : Nat → Nat → Reading (List Root × Nat)
  | 0, p => pure ([], p)
  | count + 1, p => do
      let ((identity, _), taken) ← Identity.deserialize b p
      let numStableEndpoints ← plainly (at8 b (p + taken))
      if maxStableEndpointsPerRoot < numStableEndpoints.toNat then Logged.throw
      else do
        let (endpoints, p) ← plainly (readEndpoints b numStableEndpoints.toNat (p + taken + 1))
        let (roots, p) ← readRoots b count p
        return (⟨identity, endpoints⟩ :: roots, p)

/-- `World::deserialize`: the world and the number of bytes; a moon's dictionary is skipped unread. -/
def deserialize (b : List Byte) (startAt : Nat) : Reading (World × Nat) := do
  let type ← plainly (at8 b startAt)
  let kind ← plainly (readKind type)
  let id ← plainly (at64 b (startAt + 1))
  let ts ← plainly (at64 b (startAt + 9))
  let updatesMustBeSignedBy ← plainly (atWord 512 64 b (startAt + 17))
  let signature ← plainly (atWord 768 96 b (startAt + 81))
  let numRoots ← plainly (at8 b (startAt + 177))
  if maxRoots < numRoots.toNat then Logged.throw
  else do
    let (roots, p) ← readRoots b numRoots.toNat (startAt + 178)
    let world : World := ⟨kind, id, ts, updatesMustBeSignedBy, signature, roots⟩
    if kind = .moon then do
      let attached ← plainly (at16 b p)
      return (world, p + attached.toNat + 2 - startAt)
    else return (world, p - startAt)

end World

namespace Peer

/-- A peer as the cache describes it, with the paths it is contacted at. -/
structure Cached where
  identity : Identity
  vProto : BitVec 16
  vMajor : BitVec 16
  vMinor : BitVec 16
  vRevision : BitVec 16
  tried : List InetAddress

/-- The loop over the cached paths, which an address that cannot be read ends. -/
def tryPaths (b : List Byte) : Nat → Nat → List InetAddress
  | 0, _ => []
  | count + 1, ptr =>
      match InetAddress.deserialize b ptr with
      | none => []
      | some (inaddr, taken) => (if inaddr.isSet then [inaddr] else []) ++ tryPaths b count (ptr + taken)

/-- `Peer::deserializeFromCache`; making the peer throws unless the key agreement works. -/
def deserializeFromCache (agree : Identity → Bool) (b : List Byte) : Reading (Option Cached) :=
  Logged.guarded none do
    let version ← plainly (at8 b 0)
    if version ≠ 2 then return none
    else do
      let ((id, _), taken) ← Identity.deserialize b 1
      if ¬id.isSet then return none
      else if ¬agree id then Logged.throw
      else do
        let ptr := 1 + taken
        let vProto ← plainly (at16 b ptr)
        let vMajor ← plainly (at16 b (ptr + 2))
        let vMinor ← plainly (at16 b (ptr + 4))
        let vRevision ← plainly (at16 b (ptr + 6))
        let tryPathCount ← plainly (at16 b (ptr + 8))
        return some ⟨id, vProto, vMajor, vMinor, vRevision, tryPaths b tryPathCount.toNat (ptr + 10)⟩

end Peer

/-- What reading identities depends on in the rest of the node. The parts of the handlers that read none are
left open; they return or throw. -/
structure PacketEnvironment where
  identity : Identity
  /-- Key agreement with our own identity. -/
  agree : Identity → Bool
  /-- The peers in memory, and the state objects of those that are not. -/
  peers : Address → Option Identity
  storedPeer : Address → List Byte
  /-- `shouldInboundPathBeTrusted` for the path of the packet. -/
  shouldInboundPathBeTrusted : BitVec 64 → Bool
  dearmor : Identity → List Byte → Option (List Byte)
  lz4 : List Byte → Option (List Byte)
  expectingReplyTo : BitVec 64 → Bool
  isUpstream : Identity → Bool
  shouldAcceptWorldUpdateFrom : Address → Bool
  /-- `addWorld`, unless it throws. -/
  addWorld : World → Bool → Option Bool
  /-- `_doHELLO` behind the lookup of the peer. -/
  helloRest : Bool → Identity → Option Identity → List Byte → Option Bool
  /-- `_doOK` behind the identities in it. -/
  okRest : List Byte → Option Bool
  /-- The other verbs. -/
  handler : Byte → List Byte → Option Bool

namespace PacketEnvironment

variable (env : PacketEnvironment)

/-- `Topology::getPeer`: a peer that is only in the cache is loaded but not returned yet. -/
def getPeer (zta : Address) : Reading (Option Identity) :=
  if zta = env.identity.address then return none
  else
    match env.peers zta with
    | some peer => return some peer
    | none =>
        Logged.guarded none do
          if env.storedPeer zta = [] then return none
          else do
            let _ ← Peer.deserializeFromCache env.agree (env.storedPeer zta)
            return none

/-- `IncomingPacket::_doHELLO`. -/
def doHELLO (packet : List Byte) (alreadyAuthenticated : Bool) : Reading Bool := do
  let protoVersion ← plainly (at8 packet 28)
  let _vMajor ← plainly (at8 packet 29)
  let _vMinor ← plainly (at8 packet 30)
  let _vRevision ← plainly (at16 packet 31)
  let _timestamp ← plainly (at64 packet 33)
  let ((id, _), _) ← Identity.deserialize packet 41
  if protoVersion.toNat < 4 then return true
  else if Packet.source packet ≠ id.address then return true
  else do
    let peer ← env.getPeer id.address
    plainly (env.helloRest alreadyAuthenticated id peer packet)

/-- The loop over the worlds in a reply to a HELLO; a world takes at least one byte. -/
def readWorlds (packet : List Byte) : Nat → Nat → Nat → Reading Unit
  | 0, _, _ => return ()
  | fuel + 1, ptr, endOfWorlds =>
      if ptr < endOfWorlds then do
        let (w, taken) ← World.deserialize packet ptr
        let _ ← plainly (env.addWorld w false)
        readWorlds packet fuel (ptr + taken) endOfWorlds
      else return ()

/-- The reply to a HELLO, as far as it reads worlds. -/
def okHello (peer : Identity) (packet : List Byte) : Reading Bool := do
  let _timestamp ← plainly (at64 packet 37)
  let vProto ← plainly (at8 packet 45)
  let _vMajor ← plainly (at8 packet 46)
  let _vMinor ← plainly (at8 packet 47)
  let _vRevision ← plainly (at16 packet 48)
  if vProto.toNat < 4 then return true
  else do
    let ptr ← plainly (if 50 < packet.length then (InetAddress.deserialize packet 50).map (fun read => 50 + read.2)
      else some 50)
    if ptr + 2 ≤ packet.length then do
      let worldsLen ← plainly (at16 packet ptr)
      if env.shouldAcceptWorldUpdateFrom peer.address then do
        env.readWorlds packet worldsLen.toNat (ptr + 2) (ptr + 2 + worldsLen.toNat)
        plainly (env.okRest packet)
      else plainly (env.okRest packet)
    else plainly (env.okRest packet)

/-- `IncomingPacket::_doOK`. -/
def doOK (peer : Identity) (packet : List Byte) : Reading Bool := do
  let inReVerb ← plainly (at8 packet 28)
  let inRePacketId ← plainly (at64 packet 29)
  if ¬env.expectingReplyTo inRePacketId then return true
  else if inReVerb = 0x01 then env.okHello peer packet
  else if inReVerb = 0x04 then
    if env.isUpstream peer then do
      let ((id, _), _) ← Identity.deserialize packet 37
      if env.agree id then plainly (env.okRest packet) else Logged.throw
    else plainly (env.okRest packet)
  else plainly (env.okRest packet)

/-- `tryDecode` from the lookup of the peer on. -/
def decodeFromPeer (packet : List Byte) (authenticated : Bool) : Reading Bool := do
  let peer ← env.getPeer (Packet.source packet)
  match peer with
  | none => return false
  | some peer =>
      match if authenticated then some packet else env.dearmor peer packet with
      | none => return true
      | some data =>
          match Packet.uncompress env.lz4 data with
          | none => return true
          | some plain =>
              if Packet.verb plain = 0x01 then env.doHELLO plain true
              else if Packet.verb plain = 0x03 then env.doOK peer plain
              else plainly (env.handler (Packet.verb plain) plain)

/-- `IncomingPacket::tryDecode`. -/
def tryDecode (packet : List Byte) (authenticated : Bool) : Reading Bool :=
  Logged.guarded true (
    if Packet.cipher packet = 2 then
      if env.shouldInboundPathBeTrusted (Packet.trustedPathId packet) then env.decodeFromPeer packet true
      else return true
    else if Packet.cipher packet = 0 ∧ Packet.verb packet = 0x01 then env.doHELLO packet false
    else env.decodeFromPeer packet authenticated)

/-- The part of the constructor of `Topology` that reads a stored planet. -/
def loadPlanet (stored : List Byte) : Reading Unit :=
  Logged.guarded () do
    if stored = [] then return ()
    else do
      let (cachedPlanet, _) ← World.deserialize stored 0
      let _ ← plainly (env.addWorld cachedPlanet false)
      return ()

/-- `Topology::addMoon`, as far as it reads a stored moon. -/
def addMoon (id : BitVec 64) (stored : List Byte) : Reading Unit :=
  Logged.guarded () do
    if stored = [] then return ()
    else do
      let (w, _) ← World.deserialize stored 0
      if w.type = .moon ∧ w.id = id then do
        let _ ← plainly (env.addWorld w true)
        return ()
      else return ()

/-- The places that identities are read from. -/
inductive Source
  | packet (data : List Byte) (authenticated : Bool)
  | peer (zta : Address)
  | planet (stored : List Byte)
  | moon (id : BitVec 64) (stored : List Byte)

/-- Read from a place, whatever the value. -/
def readFrom : Source → Reading Unit
  | .packet data authenticated => do
      let _ ← env.tryDecode data authenticated
      return ()
  | .peer zta => do
      let _ ← Peer.deserializeFromCache env.agree (env.storedPeer zta)
      return ()
  | .planet stored => env.loadPlanet stored
  | .moon id stored => env.addMoon id stored

end PacketEnvironment

/-- `Identity::deserialize` aborts exactly at a wrong type or length. -/
theorem Identity.deserializeAt_aborted_iff (b : List Byte) (startAt : Nat) :
    deserializeAt b startAt = .aborted ↔ ¬ Plain (b, startAt) := by
  have present (width count i j : Nat) (before : i + count ≤ j + 1) (there : (at8 b j).isSome = true) :
      ∃ word : BitVec width, atWord width count b i = some word := by
    apply Option.isSome_iff_exists.mp
    rw [atWord_isSome]
    have inside := (atWord_isSome 8 1 b j).mp there
    omega
  unfold deserializeAt Plain
  dsimp only
  cases typeRead : at8 b (startAt + 5) with
  | none =>
      have absent : at8 b (startAt + 70) = none := by
        cases last : at8 b (startAt + 70) with
        | none => rfl
        | some length =>
            obtain ⟨word, read⟩ := present 8 1 (startAt + 5) (startAt + 70) (by omega) (by rw [last]; rfl)
            rw [← at8, typeRead] at read
            cases read
      cases Address.readAt b startAt <;> simp [absent]
  | some type =>
      obtain ⟨address, addressRead⟩ := present 40 5 startAt (startAt + 5) (by omega) (by rw [typeRead]; rfl)
      rw [Address.readAt, addressRead]
      dsimp only
      by_cases wrongType : type ≠ 0
      · rw [if_pos wrongType]
        exact iff_of_true rfl (fun plain => wrongType (plain.1 type rfl))
      · rw [if_neg wrongType]
        have zero : type = 0 := not_not.mp wrongType
        cases lengthRead : at8 b (startAt + 70) with
        | none =>
            cases atWord 512 64 b (startAt + 6) <;> simp [zero]
        | some length =>
            obtain ⟨publicKey, keyRead⟩ :=
              present 512 64 (startAt + 6) (startAt + 70) (by omega) (by rw [lengthRead]; rfl)
            rw [keyRead]
            dsimp only
            by_cases none : length = 0
            · simp [none, zero]
            · by_cases whole : length = 64
              · cases atWord 512 64 b (startAt + 71) <;> simp [whole, zero]
              · rw [if_pos none, if_pos whole]
                exact iff_of_true rfl (fun plain => (plain.2 length rfl).elim none whole)

section Soundness

open Logged

/-- Code that aborts exactly if one of the identities it reads is not plain. -/
abbrev Faithful {α : Type} (code : Reading α) : Prop := Sound Identity.Plain code

theorem faithful_deserialize (b : List Byte) (startAt : Nat) : Faithful (Identity.deserialize b startAt) := by
  change Identity.deserializeAt b startAt = .aborted ↔ ∃ blob ∈ [(b, startAt)], ¬ Identity.Plain blob
  rw [Identity.deserializeAt_aborted_iff]
  simp

theorem faithful_plainly {α β : Type} (value : Option α) {next : α → Reading β}
    (later : ∀ value, Faithful (next value)) : Faithful (plainly value >>= next) :=
  sound_bind (sound_ofOption value) later

theorem faithful_ite {α : Type} {condition : Prop} [Decidable condition] {first second : Reading α}
    (one : Faithful first) (other : Faithful second) : Faithful (if condition then first else second) := by
  by_cases holds : condition
  · rw [if_pos holds]
    exact one
  · rw [if_neg holds]
    exact other

theorem faithful_readRoots (b : List Byte) (count p : Nat) : Faithful (World.readRoots b count p) := by
  induction count generalizing p with
  | zero => exact sound_pure _
  | succ count ih =>
      apply sound_bind (faithful_deserialize b p)
      rintro ⟨⟨identity, privateKey⟩, taken⟩
      apply faithful_plainly
      intro numStableEndpoints
      apply faithful_ite sound_throw
      apply faithful_plainly
      rintro ⟨endpoints, next⟩
      apply sound_bind (ih next)
      rintro ⟨roots, behind⟩
      exact sound_pure _

theorem faithful_world (b : List Byte) (startAt : Nat) : Faithful (World.deserialize b startAt) := by
  unfold World.deserialize
  apply faithful_plainly
  intro type
  apply faithful_plainly
  intro kind
  apply faithful_plainly
  intro id
  apply faithful_plainly
  intro ts
  apply faithful_plainly
  intro updatesMustBeSignedBy
  apply faithful_plainly
  intro signature
  apply faithful_plainly
  intro numRoots
  apply faithful_ite sound_throw
  apply sound_bind (faithful_readRoots b _ _)
  rintro ⟨roots, p⟩
  apply faithful_ite
  · apply faithful_plainly
    intro attached
    exact sound_pure _
  · exact sound_pure _

theorem faithful_fromCache (agree : Identity → Bool) (b : List Byte) :
    Faithful (Peer.deserializeFromCache agree b) := by
  apply sound_guarded
  apply faithful_plainly
  intro version
  apply faithful_ite (sound_pure _)
  apply sound_bind (faithful_deserialize b 1)
  rintro ⟨⟨id, privateKey⟩, taken⟩
  apply faithful_ite (sound_pure _)
  apply faithful_ite sound_throw
  apply faithful_plainly
  intro vProto
  apply faithful_plainly
  intro vMajor
  apply faithful_plainly
  intro vMinor
  apply faithful_plainly
  intro vRevision
  apply faithful_plainly
  intro tryPathCount
  exact sound_pure _

namespace PacketEnvironment

variable (env : PacketEnvironment)

theorem faithful_getPeer (zta : Address) : Faithful (env.getPeer zta) := by
  unfold getPeer
  apply faithful_ite (sound_pure _)
  cases env.peers zta with
  | some peer => exact sound_pure _
  | none =>
      apply sound_guarded
      apply faithful_ite (sound_pure _)
      apply sound_bind (faithful_fromCache _ _)
      intro peer
      exact sound_pure _

theorem faithful_doHELLO (packet : List Byte) (alreadyAuthenticated : Bool) :
    Faithful (env.doHELLO packet alreadyAuthenticated) := by
  unfold doHELLO
  apply faithful_plainly
  intro protoVersion
  apply faithful_plainly
  intro vMajor
  apply faithful_plainly
  intro vMinor
  apply faithful_plainly
  intro vRevision
  apply faithful_plainly
  intro timestamp
  apply sound_bind (faithful_deserialize packet 41)
  rintro ⟨⟨id, privateKey⟩, taken⟩
  apply faithful_ite (sound_pure _)
  apply faithful_ite (sound_pure _)
  apply sound_bind (env.faithful_getPeer id.address)
  intro peer
  exact sound_ofOption _

theorem faithful_readWorlds (packet : List Byte) (fuel ptr endOfWorlds : Nat) :
    Faithful (env.readWorlds packet fuel ptr endOfWorlds) := by
  induction fuel generalizing ptr with
  | zero => exact sound_pure _
  | succ fuel ih =>
      unfold readWorlds
      apply faithful_ite
      · apply sound_bind (faithful_world packet ptr)
        rintro ⟨w, taken⟩
        apply faithful_plainly
        intro added
        exact ih (ptr + taken)
      · exact sound_pure _

theorem faithful_okHello (peer : Identity) (packet : List Byte) : Faithful (env.okHello peer packet) := by
  unfold okHello
  apply faithful_plainly
  intro timestamp
  apply faithful_plainly
  intro vProto
  apply faithful_plainly
  intro vMajor
  apply faithful_plainly
  intro vMinor
  apply faithful_plainly
  intro vRevision
  apply faithful_ite (sound_pure _)
  apply faithful_plainly
  intro ptr
  apply faithful_ite
  · apply faithful_plainly
    intro worldsLen
    apply faithful_ite
    · apply sound_bind (env.faithful_readWorlds packet _ _ _)
      intro done
      exact sound_ofOption _
    · exact sound_ofOption _
  · exact sound_ofOption _

theorem faithful_doOK (peer : Identity) (packet : List Byte) : Faithful (env.doOK peer packet) := by
  unfold doOK
  apply faithful_plainly
  intro inReVerb
  apply faithful_plainly
  intro inRePacketId
  apply faithful_ite (sound_pure _)
  apply faithful_ite (env.faithful_okHello peer packet)
  apply faithful_ite
  · apply faithful_ite
    · apply sound_bind (faithful_deserialize packet 37)
      rintro ⟨⟨id, privateKey⟩, taken⟩
      exact faithful_ite (sound_ofOption _) sound_throw
    · exact sound_ofOption _
  · exact sound_ofOption _

theorem faithful_decodeFromPeer (packet : List Byte) (authenticated : Bool) :
    Faithful (env.decodeFromPeer packet authenticated) := by
  unfold decodeFromPeer
  apply sound_bind (env.faithful_getPeer _)
  intro peer
  cases peer with
  | none => exact sound_pure _
  | some peer =>
      dsimp only
      cases (if authenticated then some packet else env.dearmor peer packet) with
      | none => exact sound_pure _
      | some data =>
          dsimp only
          cases Packet.uncompress env.lz4 data with
          | none => exact sound_pure _
          | some plain =>
              apply faithful_ite (env.faithful_doHELLO plain true)
              exact faithful_ite (env.faithful_doOK peer plain) (sound_ofOption _)

/-- Everything in the `try` block of `tryDecode`. -/
theorem faithful_tryDecode (packet : List Byte) (authenticated : Bool) :
    Faithful (env.tryDecode packet authenticated) := by
  apply sound_guarded
  apply faithful_ite
  · exact faithful_ite (env.faithful_decodeFromPeer packet true) (sound_pure _)
  · exact faithful_ite (env.faithful_doHELLO packet false) (env.faithful_decodeFromPeer packet authenticated)

theorem faithful_loadPlanet (stored : List Byte) : Faithful (env.loadPlanet stored) := by
  apply sound_guarded
  apply faithful_ite (sound_pure _)
  apply sound_bind (faithful_world stored 0)
  rintro ⟨cachedPlanet, taken⟩
  apply faithful_plainly
  intro added
  exact sound_pure _

theorem faithful_addMoon (id : BitVec 64) (stored : List Byte) : Faithful (env.addMoon id stored) := by
  apply sound_guarded
  apply faithful_ite (sound_pure _)
  apply sound_bind (faithful_world stored 0)
  rintro ⟨w, taken⟩
  apply faithful_ite
  · apply faithful_plainly
    intro added
    exact sound_pure _
  · exact sound_pure _

theorem faithful_readFrom (source : Source) : Faithful (env.readFrom source) := by
  cases source with
  | packet data authenticated =>
      apply sound_bind (env.faithful_tryDecode data authenticated)
      intro decoded
      exact sound_pure _
  | peer zta =>
      apply sound_bind (faithful_fromCache env.agree (env.storedPeer zta))
      intro peer
      exact sound_pure _
  | planet stored => exact env.faithful_loadPlanet stored
  | moon id stored => exact env.faithful_addMoon id stored

/-- Whatever is thrown while identities are read is caught where they come from. -/
theorem readFrom_ne_threw (source : Source) : (env.readFrom source).outcome ≠ .threw := by
  cases source with
  | packet data authenticated => exact bind_pure_ne_threw (guarded_ne_threw _ _)
  | peer zta => exact bind_pure_ne_threw (guarded_ne_threw _ _)
  | planet stored => exact guarded_ne_threw _ _
  | moon id stored => exact guarded_ne_threw _ _

end PacketEnvironment

end Soundness

/-- Reading an identity ends the process exactly at a wrong type or a wrong length of the private key, and no
caller prevents it: a packet, a stored peer and a stored world are survived exactly if every identity that is
read from them is plain. -/
theorem identities_survived_iff (b : List Byte) (startAt : Nat) (env : PacketEnvironment)
    (source : PacketEnvironment.Source) :
    (Identity.deserializeAt b startAt ≠ .aborted ↔ Identity.Plain (b, startAt)) ∧
    ((∃ value, (env.readFrom source).outcome = .returned value) ↔
      ∀ blob ∈ (env.readFrom source).calls, Identity.Plain blob) := by
  constructor
  · rw [Ne, Identity.deserializeAt_aborted_iff, not_not]
  · exact Logged.returns_iff (env.faithful_readFrom source) (env.readFrom_ne_threw source)

/-- A clear HELLO whose identity has the type 1. -/
def helloOfUnknownType : List Byte :=
  List.replicate 27 0 ++ [1, 11] ++ List.replicate 17 0 ++ [1]

/-- A node that knows nobody. -/
def lonelyNode : PacketEnvironment where
  identity := ⟨1, 0⟩
  agree := fun _ => true
  peers := fun _ => none
  storedPeer := fun _ => []
  shouldInboundPathBeTrusted := fun _ => false
  dearmor := fun _ _ => none
  lz4 := fun _ => none
  expectingReplyTo := fun _ => false
  isUpstream := fun _ => false
  shouldAcceptWorldUpdateFrom := fun _ => false
  addWorld := fun _ _ => some false
  helloRest := fun _ _ _ _ => some true
  okRest := fun _ => some true
  handler := fun _ _ => some true

/-- Anyone can end the process with one packet. -/
theorem clear_hello_ends_process : (lonelyNode.readFrom (.packet helloOfUnknownType false)).outcome = .aborted := by
  decide

end ZeroTierNode
