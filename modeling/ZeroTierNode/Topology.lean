import Mathlib.Data.List.Sort
import Mathlib.Logic.Function.Basic
import ZeroTierNode.IdentityParsing
import ZeroTierNode.Library.Stamps

/-!
Peers, paths and the tables in which `Topology` keeps them. Of a peer and of a path
only the time stamps are kept here; they are all zero in a new object.
-/

namespace ZeroTierNode
open Library.Bytes Library.Stamps

/-- `ZT_TRUST_EXPIRATION`. -/
abbrev trustExpiration : Int := 600000

/-- `ZT_PEER_ACTIVITY_TIMEOUT` of a build without `ZT_SDK`. -/
abbrev peerActivityTimeout : Int := 500000

structure Path where
  lastTrustEstablishedPacketReceived : Int
  lastEchoRequestReceived : Int
deriving DecidableEq, Repr

namespace Path

/-- The constructor. -/
def new : Path := ⟨0, 0⟩

def trustedPacketReceived (path : Path) (t : Int) : Path :=
  { path with lastTrustEstablishedPacketReceived := t }

def trustEstablished (path : Path) (now : Int) : Bool :=
  fresh trustExpiration now path.lastTrustEstablishedPacketReceived

/-- The words `_k` of `Path::HashKey`. -/
structure HashKey where
  k0 : BitVec 64
  k1 : BitVec 64
  k2 : BitVec 64
deriving DecidableEq, Repr

/-- Bytes in memory order, as the processor reads them. -/
def littleEndian (bytes : List Byte) : BitVec 64 := wordOf 64 bytes.reverse

/-- The key of a local socket and a remote address. -/
def hashKey (l : BitVec 64) : InetAddress → HashKey
  | .v4 ip port => ⟨littleEndian (wordBytes 4 ip), littleEndian (wordBytes 2 port), l⟩
  | .v6 ip port =>
      ⟨littleEndian ((wordBytes 16 ip).take 8), littleEndian ((wordBytes 16 ip).drop 8),
        (littleEndian (wordBytes 2 port) <<< 32) ^^^ l⟩
  | .nil => ⟨0, 0, l⟩

end Path

structure Peer where
  identity : Identity
  lastReceive : Int
  lastTriedMemorizedPath : Int
  lastWhoisRequestReceived : Int
  lastCredentialsReceived : Int
  lastTrustEstablishedPacketReceived : Int
deriving DecidableEq, Repr

namespace Peer

/-- The constructor; the node has a private key, so the key agreement works. -/
def new (peerIdentity : Identity) : Peer := ⟨peerIdentity, 0, 0, 0, 0, 0⟩

@[simp] theorem new_identity (peerIdentity : Identity) : (new peerIdentity).identity = peerIdentity := rfl

def isAlive (peer : Peer) (now : Int) : Bool := fresh peerActivityTimeout now peer.lastReceive

def trustEstablished (peer : Peer) (now : Int) : Bool :=
  fresh trustExpiration now peer.lastTrustEstablishedPacketReceived

/-- `relayQuality`, with the latency of the best path; `ZT_PEER_PING_PERIOD` is 60000. -/
def relayQuality (peer : Peer) (latency : BitVec 32) (now : Int) : BitVec 32 :=
  let tsr := BitVec.ofInt 64 (now - peer.lastReceive)
  if 500000 ≤ tsr then BitVec.allOnes 32
  else
    let l := if latency = 0 then 0xffff else latency
    l * (tsr.setWidth 32 / 61000 + 1)

/-- The stamps that `Peer::received` sets. -/
def received (peer : Peer) (now : Int) (trustEstablished : Bool) : Peer :=
  { peer with
    lastReceive := now
    lastTrustEstablishedPacketReceived :=
      if trustEstablished then now else peer.lastTrustEstablishedPacketReceived }

end Peer

structure Topology where
  /-- `RR->identity`. -/
  identity : Identity
  planet : World
  moons : List World
  moonSeeds : List (BitVec 64 × Address)
  upstreamAddresses : List Address
  amUpstream : Bool
  peers : Address → Option Peer
  paths : Path.HashKey → Option Path

namespace Topology

/-- `getPath`, which makes a missing path. -/
def getPath (t : Topology) (key : Path.HashKey) : Path × Topology :=
  let path := (t.paths key).getD Path.new
  (path, { t with paths := Function.update t.paths key (some path) })

/-- `addPeer`, which keeps a peer that is there. -/
def addPeer (t : Topology) (peer : Peer) : Topology :=
  { t with
    peers := Function.update t.peers peer.identity.address
      (some ((t.peers peer.identity.address).getD peer)) }

/-- `getPeer`, with `load` reading the cache; a peer that it has to load is not returned yet. -/
def getPeer (load : Address → Option Identity) (t : Topology) (zta : Address) : Option Peer × Topology :=
  if zta = t.identity.address then (none, t)
  else
    match t.peers zta with
    | some peer => (some peer, t)
    | none =>
        match load zta with
        | some identity => (none, { t with peers := Function.update t.peers zta (some (Peer.new identity)) })
        | none => (none, t)

/-- All roots, those of the planet first. -/
def roots (t : Topology) : List World.Root := t.planet.roots ++ t.moons.flatMap World.roots

/-- A turn of the loops of `_memoizeUpstreams`. -/
def memoizeRoot (t : Topology) (root : World.Root) : Topology :=
  if root.identity = t.identity then { t with amUpstream := true }
  else if t.upstreamAddresses.contains root.identity.address then t
  else
    { t.addPeer (Peer.new root.identity) with
      upstreamAddresses := t.upstreamAddresses ++ [root.identity.address] }

/-- `_memoizeUpstreams`. -/
def memoizeUpstreams (t : Topology) : Topology :=
  let t := t.roots.foldl memoizeRoot { t with upstreamAddresses := [], amUpstream := false }
  { t with upstreamAddresses := t.upstreamAddresses.insertionSort (· ≤ ·) }

/-- The addresses that `getRootsToContact` collects. -/
def rootsToContact (t : Topology) : List Address :=
  (t.roots.filter fun root => root.identity ≠ t.identity).map (fun root => root.identity.address) ++
    t.moonSeeds.map Prod.snd

/-- `getUpstreamPeer`: the last of the best, in the order of addresses. -/
def getUpstreamPeer (latency : Address → BitVec 32) (now : Int) (t : Topology) : Option Peer :=
  (t.upstreamAddresses.foldl
    (fun (sofar : BitVec 32 × Option Peer) a =>
      match t.peers a with
      | none => sofar
      | some p =>
          let q := p.relayQuality (latency a) now
          if q ≤ sofar.1 then (q, some p) else sofar)
    (BitVec.allOnes 32, none)).2

/-- `doPeriodicTasks`: dead peers and paths that nothing refers to are dropped. -/
def doPeriodicTasks (referenced : Path.HashKey → Bool) (now : Int) (t : Topology) : Topology :=
  { t with
    peers := fun a => (t.peers a).filter fun peer => peer.isAlive now || t.upstreamAddresses.contains a
    paths := fun key => (t.paths key).filter fun _ => referenced key }

/-- The root, other than this node, from which a peer with the address is made. -/
def foreignRoot (t : Topology) (a : Address) : Option World.Root :=
  t.roots.find? fun root => root.identity ≠ t.identity ∧ root.identity.address = a

@[simp] theorem addPeer_identity (t : Topology) (peer : Peer) : (t.addPeer peer).identity = t.identity := rfl

@[simp] theorem addPeer_paths (t : Topology) (peer : Peer) : (t.addPeer peer).paths = t.paths := rfl

@[simp] theorem addPeer_upstreamAddresses (t : Topology) (peer : Peer) :
    (t.addPeer peer).upstreamAddresses = t.upstreamAddresses := rfl

theorem addPeer_peers (t : Topology) (peer : Peer) (a : Address) :
    (t.addPeer peer).peers a = (t.peers a).or (if peer.identity.address = a then some peer else none) := by
  unfold addPeer
  by_cases same : peer.identity.address = a
  · rw [if_pos same, ← same]
    dsimp only
    rw [Function.update_self]
    cases t.peers peer.identity.address <;> rfl
  · rw [if_neg same, Option.or_none]
    exact Function.update_of_ne (Ne.symm same) ..

/-- A look-up finds what is in the table, whatever the cache holds. -/
theorem getPeer_fst (load : Address → Option Identity) (t : Topology) (zta : Address) :
    (t.getPeer load zta).1 = if zta = t.identity.address then none else t.peers zta := by
  unfold getPeer
  by_cases own : zta = t.identity.address
  · rw [if_pos own, if_pos own]
  · rw [if_neg own, if_neg own]
    cases t.peers zta with
    | some peer => rfl
    | none =>
        cases load zta with
        | some identity => rfl
        | none => rfl

theorem getPeer_paths (load : Address → Option Identity) (t : Topology) (zta : Address) :
    (t.getPeer load zta).2.paths = t.paths := by
  unfold getPeer
  split
  · rfl
  · split
    · rfl
    · split <;> rfl

theorem getPeer_peers (load : Address → Option Identity) (t : Topology) (zta a : Address) :
    (t.getPeer load zta).2.peers a =
      (t.peers a).or (if zta = a ∧ zta ≠ t.identity.address then (load zta).map Peer.new else none) := by
  unfold getPeer
  by_cases own : zta = t.identity.address
  · simp [own]
  · rw [if_neg own]
    by_cases same : zta = a
    · rw [if_pos ⟨same, own⟩, ← same]
      cases known : t.peers zta with
      | some peer => simpa using known
      | none =>
          cases stored : load zta with
          | some identity => simp
          | none => simpa using known
    · rw [if_neg (fun both => same both.1), Option.or_none]
      cases t.peers zta with
      | some peer => rfl
      | none =>
          cases load zta with
          | some identity => exact Function.update_of_ne (Ne.symm same) ..
          | none => rfl

section Memoize

@[simp] theorem memoizeRoot_identity (t : Topology) (root : World.Root) :
    (t.memoizeRoot root).identity = t.identity := by
  unfold memoizeRoot
  split
  · rfl
  · split <;> rfl

@[simp] theorem memoizeRoot_paths (t : Topology) (root : World.Root) :
    (t.memoizeRoot root).paths = t.paths := by
  unfold memoizeRoot
  split
  · rfl
  · split <;> rfl

/-- Every upstream address has a peer. -/
def UpstreamsKnown (t : Topology) : Prop := ∀ a ∈ t.upstreamAddresses, (t.peers a).isSome = true

/-- An address that is listed already has its peer, so skipping it makes no difference. -/
theorem memoizeRoot_peers {t : Topology} (known : t.UpstreamsKnown) (root : World.Root) (a : Address) :
    (t.memoizeRoot root).peers a =
      (t.peers a).or (if root.identity ≠ t.identity ∧ root.identity.address = a then some (Peer.new root.identity)
        else none) := by
  unfold memoizeRoot
  by_cases own : root.identity = t.identity
  · simp [own]
  · rw [if_neg own]
    by_cases listed : t.upstreamAddresses.contains root.identity.address = true
    · rw [if_pos listed]
      by_cases same : root.identity.address = a
      · obtain ⟨peer, present⟩ := Option.isSome_iff_exists.mp (known _ (List.contains_iff_mem.mp listed))
        rw [same] at present
        simp [present]
      · simp [same]
    · rw [if_neg listed]
      dsimp only
      rw [addPeer_peers]
      by_cases same : root.identity.address = a
      · simp [own, same]
      · simp [same]

theorem memoizeRoot_known {t : Topology} (known : t.UpstreamsKnown) (root : World.Root) :
    (t.memoizeRoot root).UpstreamsKnown := by
  intro a member
  rw [memoizeRoot_peers known, Option.isSome_or]
  unfold memoizeRoot at member
  by_cases own : root.identity = t.identity
  · rw [if_pos own] at member
    simp [known a member]
  · rw [if_neg own] at member
    by_cases listed : t.upstreamAddresses.contains root.identity.address = true
    · rw [if_pos listed] at member
      simp [known a member]
    · rw [if_neg listed] at member
      rcases List.mem_append.mp member with before | last
      · simp [known a before]
      · simp [own, List.mem_singleton.mp last]

theorem foldl_memoizeRoot_frame (roots : List World.Root) (t : Topology) :
    (roots.foldl memoizeRoot t).identity = t.identity ∧ (roots.foldl memoizeRoot t).paths = t.paths := by
  induction roots generalizing t with
  | nil => exact ⟨rfl, rfl⟩
  | cons root roots ih => simpa using ih (t.memoizeRoot root)

theorem foldl_memoizeRoot_peers (roots : List World.Root) {t : Topology} (known : t.UpstreamsKnown) (a : Address) :
    (roots.foldl memoizeRoot t).peers a =
      (t.peers a).or ((roots.find? fun root => root.identity ≠ t.identity ∧ root.identity.address = a).map
        fun root => Peer.new root.identity) := by
  induction roots generalizing t with
  | nil => simp
  | cons root roots ih =>
      rw [List.foldl_cons, ih (memoizeRoot_known known root), memoizeRoot_peers known, memoizeRoot_identity,
        List.find?_cons, Option.or_assoc]
      by_cases foreign : root.identity ≠ t.identity ∧ root.identity.address = a
      · simp [foreign]
      · rw [if_neg foreign, decide_eq_false foreign, Option.none_or]

/-- The peers of missing roots are made. -/
theorem memoizeUpstreams_peers (t : Topology) (a : Address) :
    t.memoizeUpstreams.peers a = (t.peers a).or ((t.foreignRoot a).map fun root => Peer.new root.identity) := by
  have empty : UpstreamsKnown { t with upstreamAddresses := [], amUpstream := false } := by
    intro a member
    cases member
  exact foldl_memoizeRoot_peers t.roots empty a

@[simp] theorem memoizeUpstreams_paths (t : Topology) : t.memoizeUpstreams.paths = t.paths :=
  (foldl_memoizeRoot_frame t.roots _).2

@[simp] theorem memoizeUpstreams_identity (t : Topology) : t.memoizeUpstreams.identity = t.identity :=
  (foldl_memoizeRoot_frame t.roots _).1

end Memoize

end Topology

end ZeroTierNode
