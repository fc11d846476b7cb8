import ZeroTierNode.IdentityPersistence
import ZeroTierNode.Topology

/-!
The table of peers together with the state store. Peers that are dropped from the
table are saved under their address, and `getPeer` loads a missing peer into the
table under the address it was asked for, without looking at the identity in the
object. The keys of the ports have room for 32 of the 40 bits of an address.
-/

namespace ZeroTierNode
open Library.Bytes Library.Runs

/-- `Identity::serialize` without the private key. -/
def Identity.serialize (identity : Identity) : List Byte :=
  identity.address.appendTo ++ wordBytes 1 (0 : Byte) ++ wordBytes 64 identity.publicKey ++ wordBytes 1 (0 : Byte)

namespace Peer

/-- What the cache keeps of a peer beside its identity. -/
structure Remembered where
  vProto : BitVec 16
  vMajor : BitVec 16
  vMinor : BitVec 16
  vRevision : BitVec 16
  paths : List InetAddress

def serializeForCache (identity : Identity) (r : Remembered) : List Byte :=
  wordBytes 1 (2 : Byte) ++ identity.serialize ++ wordBytes 2 r.vProto ++ wordBytes 2 r.vMajor ++
    wordBytes 2 r.vMinor ++ wordBytes 2 r.vRevision ++ wordBytes 2 (BitVec.ofNat 16 r.paths.length) ++
    r.paths.flatMap InetAddress.serialize

end Peer

namespace World

/-- The constructor. -/
def new : World := ⟨.null, 0, 0, 0, 0, []⟩

def Kind.toByte : Kind → Byte
  | null => 0
  | planet => 1
  | moon => 127

def Root.serialize (r : Root) : List Byte :=
  r.identity.serialize ++ wordBytes 1 (BitVec.ofNat 8 r.stableEndpoints.length) ++
    r.stableEndpoints.flatMap InetAddress.serialize

/-- `World::serialize`, which leaves the signature out of what is signed. -/
def serialize (w : World) (forSign : Bool) : List Byte :=
  (if forSign then wordBytes 8 (0x7f7f7f7f7f7f7f7f : BitVec 64) else []) ++ wordBytes 1 w.type.toByte ++
    wordBytes 8 w.id ++ wordBytes 8 w.ts ++ wordBytes 64 w.updatesMustBeSignedBy ++
    (if forSign then [] else wordBytes 96 w.signature) ++ wordBytes 1 (BitVec.ofNat 8 w.roots.length) ++
    w.roots.flatMap Root.serialize ++ (if w.type = .moon then wordBytes 2 (0 : BitVec 16) else []) ++
    (if forSign then wordBytes 8 (0xf7f7f7f7f7f7f7f7 : BitVec 64) else [])

/-- `ZT_WORLD_MAX_SERIALIZED_LENGTH`. -/
abbrev maxSerializedLength : Nat := 8480

/-- `World::shouldBeReplacedBy`; a world that does not fit the buffer is thrown out. -/
def shouldBeReplacedBy (crypto : Crypto) (w update : World) : Bool :=
  w.id = 0 ∨ w.type = .null ∨
    (w.id = update.id ∧ w.ts < update.ts ∧ w.type = update.type ∧
      (update.serialize true).length ≤ maxSerializedLength ∧
      crypto.eccVerify w.updatesMustBeSignedBy (update.serialize true) update.signature)

end World

/-- `Topology` and the store below it. -/
structure StoredTopology where
  topology : Topology
  nvs : Nvs

namespace Topology

/-- The members as the constructor initializes them. -/
def new (identity : Identity) : Topology :=
  ⟨identity, World.new, [], [], [], false, fun _ => none, fun _ => none⟩

def getIdentity (t : Topology) (zta : Address) : Identity :=
  if zta = t.identity.address then t.identity else ((t.peers zta).map Peer.identity).getD .nil

/-- Every peer in the table is the one with the address it is kept under. -/
def PeersBound (t : Topology) : Prop := ∀ a, ∀ peer ∈ t.peers a, peer.identity.address = a

/-- The first half of `addWorld`: the new world takes the place of an older one or is a new moon that is wanted. -/
def installWorld (crypto : Crypto) (t : Topology) (newWorld : World) (alwaysAcceptNew : Bool) : Option Topology :=
  match newWorld.type with
  | .null => none
  | .planet => if t.planet.shouldBeReplacedBy crypto newWorld then some { t with planet := newWorld } else none
  | .moon =>
      match t.moons.find? fun m => m.id = newWorld.id with
      | some m =>
          if m.shouldBeReplacedBy crypto newWorld then
            some { t with moons := t.moons.set (t.moons.findIdx fun m => m.id = newWorld.id) newWorld }
          else none
      | none =>
          if alwaysAcceptNew then some { t with moons := t.moons ++ [newWorld] }
          else
            match t.moonSeeds.find? fun seed =>
                seed.1 = newWorld.id ∧ newWorld.roots.any fun r => r.identity.address = seed.2 with
            | some seed => some { t with moonSeeds := t.moonSeeds.erase seed, moons := t.moons ++ [newWorld] }
            | none => none

end Topology

namespace StoredTopology
open Node

/-- The port, the crypto primitives and `ZT_PEER_MAX_SERIALIZED_STATE_SIZE`, which depends on the sizes of `Peer` and
`Path`. -/
structure Platform where
  port : Port
  crypto : Crypto
  stateSize : Nat

variable (platform : Platform)

/-- The peer that `getPeer` makes of a state object; the key agreement works. -/
def loadPeer (nvs : Nvs) (zta : Address) : Option Identity :=
  match platform.port.get nvs (objectOf .peer zta) platform.stateSize with
  | none => none
  | some [] => none
  | some (b :: buf) =>
      match (Peer.deserializeFromCache (fun _ => true) (b :: buf)).outcome with
      | .returned (some cached) => some cached.identity
      | _ => none

/-- `_savePeer`; a peer that does not fit the buffer is not saved. -/
def savePeer (nvs : Nvs) (identity : Identity) (r : Peer.Remembered) : Nvs :=
  let buf := Peer.serializeForCache identity r
  if buf.length ≤ platform.stateSize then platform.port.put nvs (objectOf .peer identity.address) (some buf) else nvs

/-- The peers found at the keys are saved one after the other, where `chosen`. -/
def savePeers (remembered : Address → Peer.Remembered) (chosen : Address → Peer → Bool)
    (peers : Address → Option Peer) (nvs : Nvs) (order : List Address) : Nvs :=
  order.foldl
    (fun nvs a =>
      match (peers a).filter (chosen a) with
      | some peer => savePeer platform nvs peer.identity (remembered a)
      | none => nvs)
    nvs

def getPeer (s : StoredTopology) (zta : Address) : StoredTopology :=
  { s with topology := (s.topology.getPeer (loadPeer platform s.nvs) zta).2 }

/-- `addWorld`. -/
def addWorld (s : StoredTopology) (newWorld : World) (alwaysAcceptNew : Bool) : StoredTopology :=
  match s.topology.installWorld platform.crypto newWorld alwaysAcceptNew with
  | none => s
  | some t =>
      let type := if newWorld.type = .planet then StateObjectType.planet else .moon
      let sbuf := newWorld.serialize false
      { topology := t.memoizeUpstreams
        nvs :=
          if sbuf.length ≤ World.maxSerializedLength then
            platform.port.put s.nvs ⟨type, (newWorld.id, 0)⟩ (some sbuf)
          else s.nvs }

/-- The moon is remembered as wanted, unless there is no seed. -/
def addSeed (s : StoredTopology) (id : BitVec 64) (seed : Address) : StoredTopology :=
  if seed ≠ 0 ∧ (id, seed) ∉ s.topology.moonSeeds then
    { s with topology := { s.topology with moonSeeds := s.topology.moonSeeds ++ [(id, seed)] } }
  else s

/-- `addMoon`, where reading the stored moon may end the process. -/
def addMoon (s : StoredTopology) (id : BitVec 64) (seed : Address) : StoredTopology :=
  match platform.port.get s.nvs ⟨.moon, (id, 0)⟩ World.maxSerializedLength with
  | none => s.addSeed id seed
  | some [] => s.addSeed id seed
  | some (b :: tmp) =>
      match (World.deserialize (b :: tmp) 0).outcome with
      | .returned (w, _) => if w.type = .moon ∧ w.id = id then s.addWorld platform w true else s.addSeed id seed
      | .threw => s.addSeed id seed
      | .aborted => s

def removeMoon (s : StoredTopology) (id : BitVec 64) : StoredTopology :=
  { topology :=
      { s.topology with
        moons := s.topology.moons.filter fun m => m.id ≠ id
        moonSeeds := s.topology.moonSeeds.filter fun seed => seed.1 ≠ id }.memoizeUpstreams
    nvs :=
      if s.topology.moons.any fun m => m.id = id then platform.port.put s.nvs ⟨.moon, (id, 0)⟩ none else s.nvs }

/-- `doPeriodicTasks`, visiting the peers in the order of the hash table. -/
def doPeriodicTasks (s : StoredTopology) (order : List Address) (remembered : Address → Peer.Remembered)
    (referenced : Path.HashKey → Bool) (now : Int) : StoredTopology :=
  { topology := s.topology.doPeriodicTasks referenced now
    nvs :=
      savePeers platform remembered
        (fun a peer => ¬ peer.isAlive now ∧ ¬ s.topology.upstreamAddresses.contains a)
        s.topology.peers s.nvs order }

/-- `Topology::Topology` on a store, with the default planet. -/
def construct (nvs : Nvs) (identity : Identity) (defaultPlanet : World) : StoredTopology :=
  let s : StoredTopology := ⟨Topology.new identity, nvs⟩
  let s :=
    match platform.port.get nvs ⟨.planet, (0, 0)⟩ World.maxSerializedLength with
    | none => s
    | some [] => s
    | some (b :: tmp) =>
        match (World.deserialize (b :: tmp) 0).outcome with
        | .returned (cachedPlanet, _) => s.addWorld platform cachedPlanet false
        | _ => s
  s.addWorld platform defaultPlanet false

/-- `Topology::~Topology` saves all peers, in the order of the hash table. -/
def destruct (s : StoredTopology) (order : List Address) (remembered : Address → Peer.Remembered) : Nvs :=
  savePeers platform remembered (fun _ _ => true) s.topology.peers s.nvs order

inductive Op
  | addPeer (identity : Identity)
  | getPeer (zta : Address)
  | addWorld (newWorld : World) (alwaysAcceptNew : Bool)
  | addMoon (id : BitVec 64) (seed : Address)
  | removeMoon (id : BitVec 64)
  | doPeriodicTasks (order : List Address) (remembered : Address → Peer.Remembered)
      (referenced : Path.HashKey → Bool) (now : Int)
  | received (zta : Address) (now : Int) (trustEstablished : Bool)
  | restart (order : List Address) (remembered : Address → Peer.Remembered) (defaultPlanet : World)

def step (s : StoredTopology) : Op → StoredTopology
  | .addPeer identity => { s with topology := s.topology.addPeer (Peer.new identity) }
  | .getPeer zta => s.getPeer platform zta
  | .addWorld newWorld alwaysAcceptNew => s.addWorld platform newWorld alwaysAcceptNew
  | .addMoon id seed => s.addMoon platform id seed
  | .removeMoon id => s.removeMoon platform id
  | .doPeriodicTasks order remembered referenced now =>
      s.doPeriodicTasks platform order remembered referenced now
  | .received zta now trustEstablished =>
      { s with
        topology :=
          { s.topology with
            peers := Function.update s.topology.peers zta
              ((s.topology.peers zta).map fun peer => peer.received now trustEstablished) } }
  | .restart order remembered defaultPlanet =>
      construct platform (s.destruct platform order remembered) s.topology.identity defaultPlanet

/-- Where a look-up has to go to the store, the object it finds is of the address asked for. An object of the nil
address is not loaded. -/
def FindsOwn (s : StoredTopology) : Op → Prop
  | .getPeer zta =>
      zta ≠ s.topology.identity.address → s.topology.peers zta = none →
        ∀ buf ∈ platform.port.get s.nvs (objectOf .peer zta) platform.stateSize,
          Address.readAt buf 1 = some zta ∨ Address.readAt buf 1 = some 0
  | _ => True

end StoredTopology

section Cache
open Buffer Library.Outcomes

theorem Identity.deserializeAt_of_stands {identity : Identity} {rest b : List Byte} {i : Nat}
    (here : Stands (identity.serialize ++ rest) b i) :
    Identity.deserializeAt b i = .returned ((identity, none), 71) ∧ Stands rest b (i + 71) := by
  simp only [Identity.serialize, List.append_assoc] at here
  obtain ⟨address, here⟩ := atWord_of_stands (by decide) (by decide) here
  obtain ⟨type, here⟩ := atWord_of_stands (by decide) (by decide) here
  obtain ⟨publicKey, here⟩ := atWord_of_stands (by decide) (by decide) here
  obtain ⟨privateKeyLength, here⟩ := atWord_of_stands (by decide) (by decide) here
  refine ⟨?_, here⟩
  rw [Identity.deserializeAt, Address.readAt, address, at8, type]
  dsimp only
  rw [if_neg (by decide), publicKey, at8, privateKeyLength]
  rfl

/-- A saved peer is made again, unless its address is nil. -/
theorem Peer.deserializeFromCache_of_stands {identity : Identity} {r : Peer.Remembered} {b : List Byte}
    (here : Stands (Peer.serializeForCache identity r) b 0) :
    (Peer.deserializeFromCache (fun _ => true) b).outcome =
        .returned (if identity.isSet then
          some ⟨identity, r.vProto, r.vMajor, r.vMinor, r.vRevision,
            Peer.tryPaths b (BitVec.ofNat 16 r.paths.length).toNat 82⟩
        else none) ∧
      Stands (r.paths.flatMap InetAddress.serialize) b 82 := by
  simp only [Peer.serializeForCache, List.append_assoc] at here
  obtain ⟨version, here⟩ := atWord_of_stands (by decide) (by decide) here
  obtain ⟨id, here⟩ := Identity.deserializeAt_of_stands here
  obtain ⟨vProto, here⟩ := atWord_of_stands (by decide) (by decide) here
  obtain ⟨vMajor, here⟩ := atWord_of_stands (by decide) (by decide) here
  obtain ⟨vMinor, here⟩ := atWord_of_stands (by decide) (by decide) here
  obtain ⟨vRevision, here⟩ := atWord_of_stands (by decide) (by decide) here
  obtain ⟨tryPathCount, here⟩ := atWord_of_stands (by decide) (by decide) here
  refine ⟨?_, here⟩
  unfold Peer.deserializeFromCache Identity.deserialize
  rw [at8, version, id]
  by_cases set : identity.isSet = true
  · simp only [Nat.zero_add, Nat.reduceAdd] at vProto vMajor vMinor vRevision tryPathCount
    simp [plainly, Logged.ofOption, Bind.bind, Logged.bind, Logged.guarded, set, at16, vProto, vMajor, vMinor,
      vRevision, tryPathCount, Pure.pure, Logged.pure]
  · simp [plainly, Logged.ofOption, Bind.bind, Logged.bind, Logged.guarded, set, Pure.pure, Logged.pure]

end Cache

section Store
open Node

theorem low_objectOf (type : StateObjectType) (a : Address) : (objectOf type a).low = a.setWidth 32 := by
  rw [StateObject.low, objectOf, Address.toInt, BitVec.setWidth_setWidth_of_le _ (by decide)]

namespace Port

/-- Where a port keeps the peer objects. -/
def peerKey : Port → Address → List Byte
  | esp, a => Esp.makeKey (objectOf .peer a)
  | qemu, a => ascii "p_" ++ Library.Hex.digits 8 (objectOf .peer a).low.toNat

theorem get_peer (port : Port) (nvs : Nvs) (a : Address) (maxlen : Nat) :
    port.get nvs (objectOf .peer a) maxlen = nvs.getBlob (port.peerKey a) maxlen := by
  cases port with
  | esp =>
      change Esp.ztStateGetImpl nvs (objectOf .peer a) maxlen = _
      rw [Esp.ztStateGetImpl, peerKey]
      cases nvs.getBlob (Esp.makeKey (objectOf .peer a)) maxlen with
      | none => rfl
      | some data => rfl
  | qemu =>
      change Qemu.ztStateGet nvs (objectOf .peer a) maxlen = _
      rw [Qemu.ztStateGet, Qemu.key_peer rfl]
      rfl

/-- Peers share a key exactly if the low 32 bits of their addresses agree. -/
theorem peerKey_eq_iff (port : Port) (a b : Address) :
    port.peerKey a = port.peerKey b ↔ (a.setWidth 32 : BitVec 32) = b.setWidth 32 := by
  rw [← low_objectOf .peer a, ← low_objectOf .peer b]
  cases port with
  | esp =>
      rw [peerKey, peerKey, Esp.makeKey_eq_iff]
      exact ⟨fun both => both.2, fun low => ⟨rfl, low⟩⟩
  | qemu =>
      rw [peerKey, peerKey, List.append_cancel_left_eq, ← BitVec.toNat_inj]
      exact Library.Hex.digits_inj (objectOf .peer a).low.isLt (objectOf .peer b).low.isLt

theorem put_peer (port : Port) (nvs : Nvs) (a : Address) (data : List Byte) :
    port.put nvs (objectOf .peer a) (some data) = nvs.setBlob (port.peerKey a) data := by
  cases port with
  | esp => rfl
  | qemu =>
      change Qemu.ztStatePut nvs (objectOf .peer a) (some data) = _
      rw [Qemu.ztStatePut, Qemu.key_peer rfl]
      rfl

/-- Objects of other types are kept elsewhere. -/
theorem put_other (port : Port) (nvs : Nvs) {object : StateObject} (other : object.type ≠ .peer)
    (data : Option (List Byte)) (a : Address) : port.put nvs object data (port.peerKey a) = nvs (port.peerKey a) := by
  cases port with
  | esp =>
      change Esp.ztStatePutImpl nvs object data (Esp.makeKey (objectOf .peer a)) = _
      rw [Esp.ztStatePutImpl_eq]
      apply Function.update_of_ne
      intro same
      exact other ((Esp.makeKey_eq_iff _ _).mp same.symm).1
  | qemu =>
      change Qemu.ztStatePut nvs object data (peerKey .qemu a) = _
      cases data with
      | none => rfl
      | some data =>
          rw [Qemu.ztStatePut]
          cases found : Qemu.key object with
          | none => rfl
          | some key =>
              apply Function.update_of_ne
              intro same
              have keys : Qemu.key object = Qemu.key (objectOf .peer a) := by
                rw [found, Qemu.key_peer rfl, ← same]
                rfl
              exact other ((Qemu.key_eq_iff (by rw [Qemu.key_peer rfl]; rfl)).mp keys).1

end Port

end Store

namespace Topology

theorem installWorld_peers {crypto : Crypto} {t next : Topology} {newWorld : World} {alwaysAcceptNew : Bool}
    (installed : t.installWorld crypto newWorld alwaysAcceptNew = some next) : next.peers = t.peers := by
  unfold installWorld at installed
  repeat' split at installed
  all_goals
    first
    | cases installed
      rfl
    | cases installed

/-- The root of an address has that address. -/
theorem memoizeUpstreams_bound {t : Topology} (bound : t.PeersBound) : t.memoizeUpstreams.PeersBound := by
  intro a peer found
  rw [memoizeUpstreams_peers] at found
  rcases Option.or_eq_some_iff.mp found with known | ⟨-, made⟩
  · exact bound a peer known
  · obtain ⟨root, foreign, rfl⟩ := Option.map_eq_some_iff.mp made
    have chosen := List.find?_some foreign
    exact (of_decide_eq_true chosen).2

theorem addPeer_bound {t : Topology} (bound : t.PeersBound) (peer : Peer) : (t.addPeer peer).PeersBound := by
  intro a found member
  rw [addPeer_peers] at member
  rcases Option.or_eq_some_iff.mp member with known | ⟨-, made⟩
  · exact bound a found known
  · split at made
    · rename_i same
      cases made
      exact same
    · cases made

/-- A look-up keeps the binding exactly if what it loads is bound. -/
theorem getPeer_bound_iff {t : Topology} (bound : t.PeersBound) (load : Address → Option Identity) (zta : Address) :
    (t.getPeer load zta).2.PeersBound ↔
      (zta ≠ t.identity.address → t.peers zta = none → ∀ identity ∈ load zta, identity.address = zta) := by
  constructor
  · intro kept foreign missing identity loaded
    apply kept zta (Peer.new identity)
    rw [getPeer_peers, missing, Option.none_or, if_pos ⟨rfl, foreign⟩, loaded]
    rfl
  · intro own a peer found
    rw [getPeer_peers] at found
    rcases Option.or_eq_some_iff.mp found with known | ⟨missing, made⟩
    · exact bound a peer known
    · split at made
      · rename_i here
        obtain ⟨identity, loaded, rfl⟩ := Option.map_eq_some_iff.mp made
        rw [← here.1] at missing ⊢
        exact own here.2 missing identity loaded
      · cases made

/-- Neither a look-up nor `getIdentity` returns the peer or the identity of another node. -/
theorem PeersBound.returned {t : Topology} (bound : t.PeersBound) (load : Address → Option Identity) (a : Address) :
    (∀ peer ∈ (t.getPeer load a).1, peer.identity.address = a) ∧
      (t.getIdentity a = .nil ∨ (t.getIdentity a).address = a) := by
  constructor
  · intro peer found
    rw [getPeer_fst] at found
    split at found
    · cases found
    · exact bound a peer found
  · unfold getIdentity
    split
    · rename_i own
      exact Or.inr own.symm
    · cases known : t.peers a with
      | none => exact Or.inl rfl
      | some peer => exact Or.inr (bound a peer known)

end Topology

namespace StoredTopology
open Node

variable {platform : Platform}

/-- The peer objects in the store are peers that were saved. -/
def PeerObjects (platform : Platform) (nvs : Nvs) : Prop :=
  ∀ a, ∀ buf ∈ nvs (platform.port.peerKey a), ∃ identity r, buf = Peer.serializeForCache identity r

theorem PeerObjects.put_other {nvs : Nvs} (objects : PeerObjects platform nvs) {object : StateObject}
    (other : object.type ≠ .peer) (data : Option (List Byte)) :
    PeerObjects platform (platform.port.put nvs object data) := by
  intro a buf held
  rw [Port.put_other platform.port nvs other] at held
  exact objects a buf held

theorem PeerObjects.savePeer {nvs : Nvs} (objects : PeerObjects platform nvs) (identity : Identity)
    (r : Peer.Remembered) : PeerObjects platform (savePeer platform nvs identity r) := by
  unfold StoredTopology.savePeer
  dsimp only
  split
  · intro a buf held
    rw [Port.put_peer] at held
    by_cases here : platform.port.peerKey a = platform.port.peerKey identity.address
    · rw [here, Nvs.setBlob, Function.update_self] at held
      exact ⟨identity, r, (Option.some_inj.mp held).symm⟩
    · rw [Nvs.setBlob, Function.update_of_ne here] at held
      exact objects a buf held
  · exact objects

theorem PeerObjects.savePeers {nvs : Nvs} (objects : PeerObjects platform nvs)
    (remembered : Address → Peer.Remembered) (chosen : Address → Peer → Bool) (peers : Address → Option Peer)
    (order : List Address) : PeerObjects platform (savePeers platform remembered chosen peers nvs order) := by
  induction order generalizing nvs with
  | nil => exact objects
  | cons a order ih =>
      apply ih
      dsimp only
      split
      · exact objects.savePeer _ _
      · exact objects

section Steps

variable {s : StoredTopology}

theorem PeerObjects.addWorld (objects : PeerObjects platform s.nvs) (newWorld : World) (alwaysAcceptNew : Bool) :
    PeerObjects platform (s.addWorld platform newWorld alwaysAcceptNew).nvs := by
  unfold StoredTopology.addWorld
  split
  · exact objects
  · dsimp only
    split
    · apply objects.put_other
      split <;> simp
    · exact objects

theorem addWorld_bound (bound : s.topology.PeersBound) (newWorld : World) (alwaysAcceptNew : Bool) :
    (s.addWorld platform newWorld alwaysAcceptNew).topology.PeersBound := by
  unfold StoredTopology.addWorld
  split
  · exact bound
  · rename_i t installed
    apply Topology.memoizeUpstreams_bound
    rw [Topology.PeersBound, Topology.installWorld_peers installed]
    exact bound

theorem addSeed_nvs (id : BitVec 64) (seed : Address) : (s.addSeed id seed).nvs = s.nvs := by
  unfold addSeed
  split <;> rfl

theorem addSeed_peers (id : BitVec 64) (seed : Address) : (s.addSeed id seed).topology.peers = s.topology.peers := by
  unfold addSeed
  split <;> rfl

/-- `addMoon` adds a world or a seed, or does nothing. -/
theorem addMoon_cases (id : BitVec 64) (seed : Address) :
    s.addMoon platform id seed = s.addSeed id seed ∨ s.addMoon platform id seed = s ∨
      ∃ w, s.addMoon platform id seed = s.addWorld platform w true := by
  unfold addMoon
  split
  · exact Or.inl rfl
  · exact Or.inl rfl
  · split
    · rename_i w taken read
      by_cases wanted : w.type = .moon ∧ w.id = id
      · rw [if_pos wanted]
        exact Or.inr (Or.inr ⟨w, rfl⟩)
      · rw [if_neg wanted]
        exact Or.inl rfl
    · exact Or.inl rfl
    · exact Or.inr (Or.inl rfl)

/-- `construct` starts with no peers and adds one or two worlds. -/
theorem construct_cases (nvs : Nvs) (identity : Identity) (defaultPlanet : World) :
    construct platform nvs identity defaultPlanet =
        addWorld platform ⟨Topology.new identity, nvs⟩ defaultPlanet false ∨
      ∃ w, construct platform nvs identity defaultPlanet =
        (addWorld platform ⟨Topology.new identity, nvs⟩ w false).addWorld platform defaultPlanet false := by
  unfold construct
  dsimp only
  split
  · exact Or.inl rfl
  · exact Or.inl rfl
  · split
    · exact Or.inr ⟨_, rfl⟩
    · exact Or.inl rfl

theorem new_bound (identity : Identity) : (Topology.new identity).PeersBound := by
  intro a peer found
  cases found

/-- No step puts anything else where the peer objects are. -/
theorem PeerObjects.step (objects : PeerObjects platform s.nvs) (op : Op) :
    PeerObjects platform (s.step platform op).nvs := by
  cases op with
  | addPeer identity => exact objects
  | getPeer zta => exact objects
  | addWorld newWorld alwaysAcceptNew => exact objects.addWorld newWorld alwaysAcceptNew
  | addMoon id seed =>
      change PeerObjects platform (s.addMoon platform id seed).nvs
      rcases @addMoon_cases platform s id seed with same | same | ⟨w, same⟩
      · rwa [same, addSeed_nvs]
      · rwa [same]
      · rw [same]
        exact objects.addWorld w true
  | removeMoon id =>
      change PeerObjects platform (if s.topology.moons.any fun m => m.id = id then _ else _)
      split
      · exact objects.put_other (by simp) none
      · exact objects
  | doPeriodicTasks order remembered referenced now => exact objects.savePeers remembered _ _ order
  | received zta now trustEstablished => exact objects
  | restart order remembered defaultPlanet =>
      have saved := objects.savePeers remembered (fun _ _ => true) s.topology.peers order
      rcases @construct_cases platform (s.destruct platform order remembered) s.topology.identity defaultPlanet with
        same | ⟨w, same⟩
      · rw [StoredTopology.step, same]
        exact PeerObjects.addWorld saved defaultPlanet false
      · rw [StoredTopology.step, same]
        exact (PeerObjects.addWorld saved w false).addWorld defaultPlanet false

/-- Every step but a look-up keeps the binding. -/
theorem step_bound (bound : s.topology.PeersBound) {op : Op} (other : ∀ zta, op ≠ .getPeer zta) :
    (s.step platform op).topology.PeersBound := by
  cases op with
  | addPeer identity => exact Topology.addPeer_bound bound _
  | getPeer zta => exact absurd rfl (other zta)
  | addWorld newWorld alwaysAcceptNew => exact addWorld_bound bound newWorld alwaysAcceptNew
  | addMoon id seed =>
      change (s.addMoon platform id seed).topology.PeersBound
      rcases @addMoon_cases platform s id seed with same | same | ⟨w, same⟩
      · rwa [same, Topology.PeersBound, addSeed_peers]
      · rwa [same]
      · rw [same]
        exact addWorld_bound bound w true
  | removeMoon id => exact Topology.memoizeUpstreams_bound bound
  | doPeriodicTasks order remembered referenced now =>
      intro a peer found
      exact bound a peer (Option.filter_eq_some_iff.mp found).1
  | received zta now trustEstablished =>
      intro a peer found
      change Function.update s.topology.peers zta _ a = some peer at found
      by_cases here : a = zta
      · rw [here, Function.update_self] at found
        obtain ⟨before, known, rfl⟩ := Option.map_eq_some_iff.mp found
        rw [here]
        exact bound zta before known
      · rw [Function.update_of_ne here] at found
        exact bound a peer found
  | restart order remembered defaultPlanet =>
      rcases @construct_cases platform (s.destruct platform order remembered) s.topology.identity defaultPlanet with
        same | ⟨w, same⟩
      · rw [StoredTopology.step, same]
        exact addWorld_bound (new_bound _) defaultPlanet false
      · rw [StoredTopology.step, same]
        exact addWorld_bound (addWorld_bound (new_bound _) w false) defaultPlanet false

end Steps

/-- A saved peer that the store answers with is loaded, unless its address is nil. -/
theorem loadPeer_saved {nvs : Nvs} {zta : Address} {identity : Identity} {r : Peer.Remembered}
    (read : platform.port.get nvs (objectOf .peer zta) platform.stateSize =
      some (Peer.serializeForCache identity r)) :
    loadPeer platform nvs zta = if identity.isSet then some identity else none := by
  have outcome := (Peer.deserializeFromCache_of_stands (stands_self (Peer.serializeForCache identity r))).1
  rw [loadPeer, read]
  cases shape : Peer.serializeForCache identity r with
  | nil => exact absurd (congrArg List.length shape) (by simp [Peer.serializeForCache])
  | cons b buf =>
      rw [shape] at outcome
      dsimp only
      rw [outcome]
      by_cases set : identity.isSet = true
      · rw [if_pos set, if_pos set]
      · rw [if_neg set, if_neg set]

theorem readAt_saved (identity : Identity) (r : Peer.Remembered) :
    Address.readAt (Peer.serializeForCache identity r) 1 = some identity.address := by
  have here := stands_self (Peer.serializeForCache identity r)
  simp only [Peer.serializeForCache, Identity.serialize, List.append_assoc] at here ⊢
  obtain ⟨-, here⟩ := Buffer.atWord_of_stands (by decide) (by decide) here
  exact (Buffer.atWord_of_stands (by decide) (by decide) here).1

theorem PeerObjects.loads_own_iff {nvs : Nvs} (objects : PeerObjects platform nvs) (zta : Address) :
    (∀ identity ∈ StoredTopology.loadPeer platform nvs zta, identity.address = zta) ↔
      ∀ buf ∈ platform.port.get nvs (objectOf .peer zta) platform.stateSize,
        Address.readAt buf 1 = some zta ∨ Address.readAt buf 1 = some 0 := by
  cases read : platform.port.get nvs (objectOf .peer zta) platform.stateSize with
  | none =>
      have missing : StoredTopology.loadPeer platform nvs zta = none := by rw [StoredTopology.loadPeer, read]
      simp [missing]
  | some buf =>
      have held := read
      rw [Port.get_peer] at held
      obtain ⟨identity, r, rfl⟩ := objects zta buf (Option.filter_eq_some_iff.mp held).1
      rw [loadPeer_saved read]
      by_cases set : identity.isSet = true
      · have filled : identity.address ≠ 0 := of_decide_eq_true set
        simpa [set, readAt_saved] using fun nil : identity.address = 0 => absurd nil filled
      · have empty : identity.address = 0 := not_not.mp (of_decide_eq_false (Bool.eq_false_iff.mpr set))
        simp [set, readAt_saved, empty]

/-- A step from a bound table leads to one exactly if its look-up finds its own. -/
theorem step_bound_iff {s : StoredTopology} (objects : PeerObjects platform s.nvs) (bound : s.topology.PeersBound)
    (op : Op) : (s.step platform op).topology.PeersBound ↔ FindsOwn platform s op := by
  by_cases lookup : ∃ zta, op = .getPeer zta
  · obtain ⟨zta, rfl⟩ := lookup
    change (s.topology.getPeer (loadPeer platform s.nvs) zta).2.PeersBound ↔ _
    rw [Topology.getPeer_bound_iff bound, objects.loads_own_iff]
    rfl
  · have other : ∀ zta, op ≠ .getPeer zta := fun zta same => lookup ⟨zta, same⟩
    refine iff_of_true (step_bound bound other) ?_
    cases op with
    | getPeer zta => exact absurd rfl (other zta)
    | _ => trivial

/-- Every peer of the table stays under its own address, and is returned for it only, exactly if each look-up that
has to go to the store finds no object there or one of the address asked for. -/
theorem peers_bound_iff (platform : Platform) (identity : Identity) (ops : List Op) :
    (Throughout (step platform) (fun s => s.topology.PeersBound) ⟨Topology.new identity, Nvs.empty⟩ ops ↔
        Along (step platform) (FindsOwn platform) ⟨Topology.new identity, Nvs.empty⟩ ops) ∧
      (Along (step platform) (FindsOwn platform) ⟨Topology.new identity, Nvs.empty⟩ ops →
        Throughout (step platform)
          (fun s => ∀ a, (∀ peer ∈ (s.topology.getPeer (loadPeer platform s.nvs) a).1, peer.identity.address = a) ∧
            (s.topology.getIdentity a = .nil ∨ (s.topology.getIdentity a).address = a))
          ⟨Topology.new identity, Nvs.empty⟩ ops) := by
  have exact_runs : Throughout (step platform) (fun s => s.topology.PeersBound) ⟨Topology.new identity, Nvs.empty⟩ ops ↔
      Along (step platform) (FindsOwn platform) ⟨Topology.new identity, Nvs.empty⟩ ops := by
    apply @throughout_iff_along_of_invariant _ _ _ _ _ (fun s => PeerObjects platform s.nvs)
    · intro s op objects
      exact objects.step op
    · intro s op objects bound
      exact step_bound_iff objects bound op
    · intro a buf held
      cases held
    · exact new_bound identity
  refine ⟨exact_runs, ?_⟩
  intro own
  exact (exact_runs.mpr own).imp (fun s bound a => bound.returned (loadPeer platform s.nvs) a)

/-- Room for a thousand bytes, on either port, and no crypto. -/
def smallPlatform (port : Port) : Platform := ⟨port, ⟨fun _ _ _ => false, fun _ => 0⟩, 1000⟩

/-- A peer is met and dropped, and another one asked for whose address has the same low half. -/
def otherAskedFor : List Op :=
  [.addPeer ⟨0x11deadbeef, 7⟩, .doPeriodicTasks [0x11deadbeef] (fun _ => ⟨0, 0, 0, 0, []⟩) (fun _ => false) 600000,
    .getPeer 0x22deadbeef]

/-- In both ports the peer is then returned for the other address. -/
theorem peer_returned_for_another :
    [Port.esp, Port.qemu].map (fun port =>
        ((run (step (smallPlatform port)) ⟨Topology.new ⟨1, 0⟩, Nvs.empty⟩ otherAskedFor).topology.peers
          0x22deadbeef).map fun peer => peer.identity.address) = [some 0x11deadbeef, some 0x11deadbeef] ∧
      [Port.esp, Port.qemu].map (fun port =>
        ((run (step (smallPlatform port)) ⟨Topology.new ⟨1, 0⟩, Nvs.empty⟩ otherAskedFor).topology.getIdentity
          0x22deadbeef).address) = [0x11deadbeef, 0x11deadbeef] := by
  decide +kernel

end StoredTopology

end ZeroTierNode
