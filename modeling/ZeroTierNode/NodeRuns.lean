import ZeroTierNode.Armor
import ZeroTierNode.RateGates

/-!
Runs of a node on the port's clock: datagrams that are relayed for others, packets
received from peers, changes of the topology, and the background tasks. What
happens to a packet for this node is not opened; it shows as the calls that the
packet's handler makes.
-/

namespace ZeroTierNode

structure Node where
  topology : Topology
  /-- `Switch::_lastUniteAttempt`. -/
  lastUniteAttempt : RateGates.LastUniteKey → Option (BitVec 64)
  lowBandwidthMode : Bool
  lastPingCheck : Int
  lastHousekeepingRun : Int
  online : Bool

namespace NodeRuns
open Library.Bytes Library.Runs Library.Stamps RateGates

section Relay

/-- `ZT_RELAY_MAX_HOPS`. -/
abbrev relayMaxHops : Byte := 3

/-- `Packet::Fragment::hops`. -/
def fragmentHops (fragment : List Byte) : Byte := Packet.byteAt fragment 15

def incrementFragmentHops (fragment : List Byte) : List Byte :=
  fragment.set 15 ((fragmentHops fragment + 1) &&& 7)

/-- The parts of the node that relaying asks: the cache of peers, the latency of upstreams, and whether
`Peer::sendDirect` finds a path and sends. -/
structure RelayEnvironment where
  load : Address → Option Identity
  latency : Address → BitVec 32
  sendDirect : (relayTo : Address) → (data : List Byte) → (force : Bool) → Bool

inductive RelayCall
  | sendDirect (relayTo : Address) (data : List Byte) (force : Bool)
  | introduce (relayTo source : Address)
deriving DecidableEq, Repr

/-- The calls for a fragment that is relayed. -/
def relayFragment (env : RelayEnvironment) (t : Topology) (now : Int) (data : List Byte) : List RelayCall :=
  if fragmentHops data < relayMaxHops then
    let fragment := incrementFragmentHops data
    let viaUpstream : List RelayCall :=
      match t.getUpstreamPeer env.latency now with
      | some relayTo => [.sendDirect relayTo.identity.address fragment true]
      | none => []
    match (t.getPeer env.load (Packet.destination data)).1 with
    | some relayTo =>
        if env.sendDirect relayTo.identity.address fragment false then
          [.sendDirect relayTo.identity.address fragment false]
        else .sendDirect relayTo.identity.address fragment false :: viaUpstream
    | none => viaUpstream
  else []

/-- `relayTo->introduce`, if the source is a known peer. -/
def introduction (env : RelayEnvironment) (t : Topology) (relayTo source : Address) : List RelayCall :=
  match (t.getPeer env.load source).1 with
  | some sourcePeer => [.introduce relayTo sourcePeer.identity.address]
  | none => []

/-- The calls for a packet head that is relayed, and the stamps of `_shouldUnite`. -/
def relayPacket (env : RelayEnvironment) (t : Topology) (table : LastUniteKey → Option (BitVec 64)) (now : Int)
    (data : List Byte) : List RelayCall × (LastUniteKey → Option (BitVec 64)) :=
  if Armor.hops data < relayMaxHops then
    let packet := Armor.incrementHops data
    let source := Packet.source data
    let viaUpstream : List RelayCall :=
      match t.getUpstreamPeer env.latency now with
      | some relayTo =>
          if relayTo.identity.address ≠ source then
            .sendDirect relayTo.identity.address packet true ::
              (if env.sendDirect relayTo.identity.address packet true then
                introduction env t relayTo.identity.address source else [])
          else []
      | none => []
    match (t.getPeer env.load (Packet.destination data)).1 with
    | some relayTo =>
        if env.sendDirect relayTo.identity.address packet false then
          let (unite, table) := shouldUnite table now source (Packet.destination data)
          (.sendDirect relayTo.identity.address packet false ::
            (if unite then introduction env t relayTo.identity.address source else []), table)
        else (.sendDirect relayTo.identity.address packet false :: viaUpstream, table)
    | none => (viaUpstream, table)
  else ([], table)

/-- The branches of `Switch::onRemotePacket` for datagrams that are not for this node. Look-ups of peers are taken
as they answer; a peer that one of them loads is an input of its own. -/
def relay (env : RelayEnvironment) (t : Topology) (table : LastUniteKey → Option (BitVec 64)) (path : Path) (now : Int)
    (data : List Byte) : List RelayCall × (LastUniteKey → Option (BitVec 64)) :=
  if Packet.minFragmentLength < data.length then
    if Packet.isFragment data then
      -- a longer fragment does not fit its buffer, which throws
      if Packet.maxPacketLength < data.length then ([], table)
      else if Packet.destination data = t.identity.address then ([], table)
      else if ¬t.amUpstream ∧ ¬path.trustEstablished now then ([], table)
      else (relayFragment env t now data, table)
    else if Packet.minPacketLength ≤ data.length then
      if Packet.source data = t.identity.address then ([], table)
      else if Packet.destination data = t.identity.address then ([], table)
      else if ¬t.amUpstream ∧ ¬path.trustEstablished now ∧ Packet.source data ≠ t.identity.address then ([], table)
      else if Packet.maxPacketLength < data.length then ([], table)
      else relayPacket env t table now data
    else ([], table)
  else ([], table)

/-- Nothing is relayed for a path without trust, unless this node is an upstream. -/
theorem relay_trusted {env : RelayEnvironment} {t : Topology} {table : LastUniteKey → Option (BitVec 64)} {path : Path}
    {now : Int} {data : List Byte} (relays : (relay env t table path now data).1 ≠ []) :
    t.amUpstream = true ∨ path.trustEstablished now = true := by
  by_contra untrusted
  have closed : ¬t.amUpstream ∧ ¬path.trustEstablished now := not_or.mp untrusted
  apply relays
  unfold relay
  split
  · split
    · split
      · rfl
      · split
        · rfl
        · rfl
    · split
      · split
        · rfl
        · rename_i foreign
          split
          · rfl
          · rw [if_pos ⟨closed.1, closed.2, foreign⟩]
      · rfl
  · rfl

/-- What is relayed never enters the receive queue. -/
theorem relay_ignored {env : RelayEnvironment} {t : Topology} {table : LastUniteKey → Option (BitVec 64)} {path : Path}
    {now : Int} {data : List Byte} {receiver : RxQueue.Environment} (own : receiver.identity = t.identity.address)
    (relays : (relay env t table path now data).1 ≠ []) : RxQueue.classify receiver data = .ignored := by
  unfold relay at relays
  unfold RxQueue.classify
  rw [own]
  by_cases long : Packet.minFragmentLength < data.length
  · rw [if_pos long] at relays ⊢
    by_cases fragment : Packet.isFragment data = true
    · rw [if_pos fragment] at relays ⊢
      by_cases mine : Packet.destination data = t.identity.address
      · rw [if_pos mine] at relays
        split at relays <;> exact absurd rfl relays
      · rw [if_neg (fun sane => mine sane.2.1)]
    · rw [if_neg fragment] at relays ⊢
      by_cases whole : Packet.minPacketLength ≤ data.length
      · rw [if_pos whole] at relays ⊢
        by_cases mine : Packet.destination data = t.identity.address
        · rw [if_pos mine] at relays
          split at relays <;> exact absurd rfl relays
        · rw [if_pos mine]
          split <;> rfl
      · rw [if_neg whole]
  · rw [if_neg long]

end Relay

section Background

/-- `ZT_PING_CHECK_INTERVAL`. -/
abbrev pingCheckInterval : Int := 5000

/-- `ZT_HOUSEKEEPING_PERIOD`. -/
abbrev housekeepingPeriod : Int := 30000

inductive NodeEvent
  | online
  | offline
deriving DecidableEq, Repr

/-- What the background tasks depend on beyond the modelled state: whether something in the ping check throws, and
the paths that are referred to from elsewhere. -/
structure BackgroundEnvironment where
  throws : Bool
  referenced : Path.HashKey → Bool

def pingCheckDue (node : Node) (now : Int) : Bool :=
  (if node.lowBandwidthMode then pingCheckInterval * 5 else pingCheckInterval) ≤ now - node.lastPingCheck

/-- The last receive times of the designated upstreams that are known as peers. -/
def upstreamReceives (t : Topology) : List Int :=
  t.rootsToContact.filterMap fun upstreamAddress => (t.peers upstreamAddress).map Peer.lastReceive

def onlineStatus (t : Topology) (now : Int) : Bool :=
  fresh peerActivityTimeout now (latest (upstreamReceives t)) || t.amUpstream

def housekeeping (env : BackgroundEnvironment) (now : Int) (node : Node) : Node :=
  if housekeepingPeriod ≤ now - node.lastHousekeepingRun then
    { node with lastHousekeepingRun := now, topology := node.topology.doPeriodicTasks env.referenced now }
  else node

/-- `Node::processBackgroundTasks`, with the events that it posts. An exception in the ping check returns at once. -/
def processBackgroundTasks (env : BackgroundEnvironment) (now : Int) (node : Node) : Node × List NodeEvent :=
  if pingCheckDue node now then
    if env.throws then ({ node with lastPingCheck := now }, [])
    else
      let online := onlineStatus node.topology now
      (housekeeping env now { node with lastPingCheck := now, online := online },
        if node.online ≠ online then [if online then .online else .offline] else [])
  else (housekeeping env now node, [])

/-- The ping check runs to its end. -/
def completesCheck (env : BackgroundEnvironment) (now : Int) (node : Node) : Bool :=
  pingCheckDue node now && !env.throws

end Background

section System

/-- One call of `Peer::received`. -/
structure Reception where
  time : Int
  peer : Address
  path : Path.HashKey
  trustEstablished : Bool
deriving DecidableEq, Repr

/-- The calls made for a datagram that is not for this node. -/
structure Relayed where
  time : Int
  path : Path.HashKey
  amUpstream : Bool
  calls : List RelayCall
deriving DecidableEq, Repr

/-- A ping check that set the status: when, and which upstreams there were. -/
structure StatusCheck where
  time : Int
  amUpstream : Bool
  upstreams : List Address

inductive Event
  | datagram (localSocket : BitVec 64) (fromAddr : InetAddress) (data : List Byte) (env : RelayEnvironment)
  | received (peer : Address) (path : Path.HashKey) (trustEstablished : Bool)
  | addPeer (identity : Identity)
  | getPeer (zta : Address) (load : Address → Option Identity)
  /-- A world or moon was added, replaced or removed. -/
  | memoizeUpstreams (planet : World) (moons : List World)
  | setMoonSeeds (moonSeeds : List (BitVec 64 × Address))
  | processBackgroundTasks (env : BackgroundEnvironment)

/-- Something that happens after some milliseconds; the port's clock does not go back. -/
structure Input where
  elapsed : Nat
  event : Event

/-- The node, the clock, and a record of what happened. -/
structure Watched where
  node : Node
  clock : Nat
  received : List Reception
  relayed : List Relayed
  status : Option StatusCheck
  posted : List (NodeEvent × StatusCheck)

def Watched.topology (w : Watched) : Topology := w.node.topology

def Watched.setTopology (w : Watched) (t : Topology) : Watched := { w with node := { w.node with topology := t } }

/-- A packet from a known peer over a known path. -/
def receive (w : Watched) (now : Int) (a : Address) (key : Path.HashKey) (trustEstablished : Bool) : Watched :=
  match w.topology.peers a, w.topology.paths key with
  | some peer, some path =>
      { w.setTopology { w.topology with
          peers := Function.update w.topology.peers a (some (peer.received now trustEstablished))
          paths := if trustEstablished then
              Function.update w.topology.paths key (some (path.trustedPacketReceived now))
            else w.topology.paths } with
        received := w.received ++ [⟨now, a, key, trustEstablished⟩] }
  | _, _ => w

theorem receive_cases (w : Watched) (now : Int) (a : Address) (key : Path.HashKey) (trustEstablished : Bool) :
    receive w now a key trustEstablished = w ∨
    ∃ peer path, w.topology.peers a = some peer ∧ w.topology.paths key = some path ∧
      (receive w now a key trustEstablished).topology.peers =
        Function.update w.topology.peers a (some (peer.received now trustEstablished)) ∧
      (receive w now a key trustEstablished).topology.paths =
        (if trustEstablished then Function.update w.topology.paths key (some (path.trustedPacketReceived now))
          else w.topology.paths) ∧
      (receive w now a key trustEstablished).received = w.received ++ [⟨now, a, key, trustEstablished⟩] := by
  unfold receive
  cases w.topology.peers a with
  | none => exact Or.inl rfl
  | some peer =>
      cases w.topology.paths key with
      | none => exact Or.inl rfl
      | some path => exact Or.inr ⟨peer, path, rfl, rfl, rfl, rfl, rfl⟩

/-- A datagram, with what is done about it if it is not for this node. -/
def onRemotePacket (w : Watched) (now : Int) (key : Path.HashKey) (data : List Byte) (env : RelayEnvironment) :
    Watched :=
  let (path, topology) := w.topology.getPath key
  let (calls, table) := relay env topology w.node.lastUniteAttempt path now data
  { w with
    node := { w.node with topology := topology, lastUniteAttempt := table }
    relayed := if calls = [] then w.relayed else w.relayed ++ [⟨now, key, topology.amUpstream, calls⟩] }

def background (w : Watched) (now : Int) (env : BackgroundEnvironment) : Watched :=
  let (node, events) := NodeRuns.processBackgroundTasks env now w.node
  let check : StatusCheck := ⟨now, w.topology.amUpstream, w.topology.rootsToContact⟩
  { w with
    node := node
    status := if completesCheck env now w.node then some check else w.status
    posted := w.posted ++ events.map fun event => (event, check) }

def handle (w : Watched) (now : Int) : Event → Watched
  | .datagram localSocket fromAddr data env => onRemotePacket w now (Path.hashKey localSocket fromAddr) data env
  | .received peer path trustEstablished => receive w now peer path trustEstablished
  | .addPeer identity => w.setTopology (w.topology.addPeer (Peer.new identity))
  | .getPeer zta load => w.setTopology (w.topology.getPeer load zta).2
  | .memoizeUpstreams planet moons =>
      w.setTopology (Topology.memoizeUpstreams { w.topology with planet := planet, moons := moons })
  | .setMoonSeeds moonSeeds => w.setTopology { w.topology with moonSeeds := moonSeeds }
  | .processBackgroundTasks env => background w now env

def Watched.now (w : Watched) (input : Input) : Int := (w.clock + input.elapsed : Nat)

def step (w : Watched) (input : Input) : Watched :=
  { handle w (w.now input) input.event with clock := w.clock + input.elapsed }

/-- A node before its topology is filled: no worlds, no peers, no paths. -/
def start (identity : Identity) (lowBandwidthMode : Bool) : Watched where
  node :=
    { topology := ⟨identity, ⟨.null, 0, 0, 0, 0, []⟩, [], [], [], false, fun _ => none, fun _ => none⟩
      lastUniteAttempt := fun _ => none
      lowBandwidthMode := lowBandwidthMode
      lastPingCheck := 0
      lastHousekeepingRun := 0
      online := false }
  clock := 0
  received := []
  relayed := []
  status := none
  posted := []

end System

section Inversion

/-- The addresses for which an event makes a peer that is missing. -/
def Event.MakesPeer (t : Topology) (a : Address) : Event → Prop
  | .addPeer identity => identity.address = a
  | .getPeer zta load => (zta = a ∧ zta ≠ t.identity.address) ∧ (load zta).isSome = true
  | .memoizeUpstreams planet moons =>
      (Topology.foreignRoot { t with planet := planet, moons := moons } a).isSome = true
  | _ => False

/-- The key under which an event makes a path that is missing. -/
def Event.MakesPath (key : Path.HashKey) : Event → Prop
  | .datagram localSocket fromAddr _ _ => Path.hashKey localSocket fromAddr = key
  | _ => False

variable {w : Watched} {now : Int} {a : Address} {key : Path.HashKey}

/-- A table to which missing entries are added. -/
theorem or_cases {α : Type} {before made : Option α} {found : α} (after : before.or made = some found) :
    before = some found ∨ (before = none ∧ made = some found) := by
  cases before with
  | none => exact Or.inr ⟨rfl, after⟩
  | some present => exact Or.inl after

theorem housekeeping_peers (env : BackgroundEnvironment) (node : Node) {peer : Peer}
    (known : (housekeeping env now node).topology.peers a = some peer) : node.topology.peers a = some peer := by
  unfold housekeeping at known
  split at known
  · exact (Option.filter_eq_some_iff.mp known).1
  · exact known

theorem housekeeping_paths (env : BackgroundEnvironment) (node : Node) {path : Path}
    (known : (housekeeping env now node).topology.paths key = some path) : node.topology.paths key = some path := by
  unfold housekeeping at known
  split at known
  · exact (Option.filter_eq_some_iff.mp known).1
  · exact known

/-- The background tasks make no objects. -/
theorem processBackgroundTasks_tables (env : BackgroundEnvironment) (node : Node) :
    (∀ a peer, (processBackgroundTasks env now node).1.topology.peers a = some peer →
      node.topology.peers a = some peer) ∧
    (∀ key path, (processBackgroundTasks env now node).1.topology.paths key = some path →
      node.topology.paths key = some path) := by
  unfold processBackgroundTasks
  split
  · split
    · exact ⟨fun _ _ known => known, fun _ _ known => known⟩
    · dsimp only
      exact ⟨fun _ _ known => housekeeping_peers env { node with lastPingCheck := now, online := _ } known,
        fun _ _ known => housekeeping_paths env { node with lastPingCheck := now, online := _ } known⟩
  · exact ⟨fun _ _ known => housekeeping_peers env _ known, fun _ _ known => housekeeping_paths env _ known⟩

/-- Where a peer in the table comes from: it was there, a packet from it was received, or it was made. -/
theorem handle_peers {event : Event} {peer : Peer} (known : (handle w now event).topology.peers a = some peer) :
    w.topology.peers a = some peer ∨
    (∃ old key trust, event = .received a key trust ∧ peer = old.received now trust ∧ w.topology.peers a = some old ∧
      (handle w now event).received = w.received ++ [⟨now, a, key, trust⟩]) ∨
    (w.topology.peers a = none ∧ event.MakesPeer w.topology a ∧ ∃ identity, peer = Peer.new identity) := by
  cases event with
  | datagram localSocket fromAddr data env => exact Or.inl known
  | setMoonSeeds moonSeeds => exact Or.inl known
  | processBackgroundTasks env => exact Or.inl ((processBackgroundTasks_tables env w.node).1 a peer known)
  | received b key trust =>
      rcases receive_cases w now b key trust with same | ⟨old, path, sender, -, peers, -, recorded⟩
      · rw [handle, same] at known
        exact Or.inl known
      · rw [handle, peers] at known
        by_cases same : a = b
        · rw [same, Function.update_self] at known
          cases known
          rw [same]
          exact Or.inr (Or.inl ⟨old, key, trust, rfl, rfl, sender, recorded⟩)
        · rw [Function.update_of_ne same] at known
          exact Or.inl known
  | addPeer identity =>
      have origin := or_cases (((w.topology.addPeer_peers (Peer.new identity) a).symm.trans known))
      rcases origin with before | ⟨absent, made⟩
      · exact Or.inl before
      · split at made
        · rename_i same
          cases made
          exact Or.inr (Or.inr ⟨absent, same, identity, rfl⟩)
        · cases made
  | getPeer zta load =>
      have origin := or_cases ((w.topology.getPeer_peers load zta a).symm.trans known)
      rcases origin with before | ⟨absent, made⟩
      · exact Or.inl before
      · split at made
        · rename_i same
          obtain ⟨identity, stored, new⟩ := Option.map_eq_some_iff.mp made
          exact Or.inr (Or.inr ⟨absent, ⟨same, by rw [stored]; rfl⟩, identity, new.symm⟩)
        · cases made
  | memoizeUpstreams planet moons =>
      have origin := or_cases ((Topology.memoizeUpstreams_peers
        { w.topology with planet := planet, moons := moons } a).symm.trans known)
      rcases origin with before | ⟨absent, made⟩
      · exact Or.inl before
      · obtain ⟨root, found, new⟩ := Option.map_eq_some_iff.mp made
        refine Or.inr (Or.inr ⟨absent, ?_, root.identity, new.symm⟩)
        rw [Event.MakesPeer, found]
        rfl

/-- A datagram makes the path that it comes over. -/
theorem datagram_paths (w : Watched) (now : Int) (localSocket : BitVec 64) (fromAddr : InetAddress) (data : List Byte)
    (env : RelayEnvironment) :
    (handle w now (.datagram localSocket fromAddr data env)).topology.paths =
      Function.update w.topology.paths (Path.hashKey localSocket fromAddr)
        (some ((w.topology.paths (Path.hashKey localSocket fromAddr)).getD Path.new)) := rfl

theorem handle_paths {event : Event} {path : Path} (known : (handle w now event).topology.paths key = some path) :
    w.topology.paths key = some path ∨
    (∃ old a, event = .received a key true ∧ path = old.trustedPacketReceived now ∧ w.topology.paths key = some old ∧
      (handle w now event).received = w.received ++ [⟨now, a, key, true⟩]) ∨
    (w.topology.paths key = none ∧ event.MakesPath key ∧ path = Path.new) := by
  cases event with
  | datagram localSocket fromAddr data env =>
      rw [datagram_paths] at known
      by_cases same : key = Path.hashKey localSocket fromAddr
      · rw [same, Function.update_self] at known
        rw [same]
        cases before : w.topology.paths (Path.hashKey localSocket fromAddr) with
        | none =>
            rw [before] at known
            cases known
            exact Or.inr (Or.inr ⟨rfl, rfl, rfl⟩)
        | some old =>
            rw [before] at known
            exact Or.inl known
      · rw [Function.update_of_ne same] at known
        exact Or.inl known
  | setMoonSeeds moonSeeds => exact Or.inl known
  | processBackgroundTasks env => exact Or.inl ((processBackgroundTasks_tables env w.node).2 key path known)
  | received a via trust =>
      rcases receive_cases w now a via trust with same | ⟨peer, old, -, before, -, paths, recorded⟩
      · rw [handle, same] at known
        exact Or.inl known
      · rw [handle, paths] at known
        cases trust with
        | false => exact Or.inl known
        | true =>
            rw [if_pos rfl] at known
            by_cases same : key = via
            · rw [same, Function.update_self] at known
              cases known
              rw [same]
              exact Or.inr (Or.inl ⟨old, a, rfl, rfl, before, recorded⟩)
            · rw [Function.update_of_ne same] at known
              exact Or.inl known
  | addPeer identity => exact Or.inl known
  | getPeer zta load =>
      exact Or.inl ((congrFun (w.topology.getPeer_paths load zta) key).symm.trans known)
  | memoizeUpstreams planet moons =>
      have same := Topology.memoizeUpstreams_paths { w.topology with planet := planet, moons := moons }
      exact Or.inl ((congrFun same key).symm.trans known)

/-- A missing peer that an event makes is new. -/
theorem handle_makesPeer {event : Event} (makes : event.MakesPeer w.topology a) (absent : w.topology.peers a = none) :
    ∃ identity, (handle w now event).topology.peers a = some (Peer.new identity) := by
  cases event with
  | addPeer identity =>
      refine ⟨identity, (w.topology.addPeer_peers (Peer.new identity) a).trans ?_⟩
      have same : identity.address = a := makes
      simp [absent, same]
  | getPeer zta load =>
      obtain ⟨same, stored⟩ := makes
      obtain ⟨identity, found⟩ := Option.isSome_iff_exists.mp stored
      refine ⟨identity, (w.topology.getPeer_peers load zta a).trans ?_⟩
      rw [absent, if_pos same, found]
      rfl
  | memoizeUpstreams planet moons =>
      obtain ⟨root, found⟩ := Option.isSome_iff_exists.mp makes
      refine ⟨root.identity, (Topology.memoizeUpstreams_peers
        { w.topology with planet := planet, moons := moons } a).trans ?_⟩
      dsimp only
      rw [absent, found]
      rfl
  | datagram localSocket fromAddr data env => exact makes.elim
  | received b key trust => exact makes.elim
  | setMoonSeeds moonSeeds => exact makes.elim
  | processBackgroundTasks env => exact makes.elim

theorem handle_makesPath {event : Event} (makes : event.MakesPath key) (absent : w.topology.paths key = none) :
    (handle w now event).topology.paths key = some Path.new := by
  cases event with
  | datagram localSocket fromAddr data env =>
      have same : Path.hashKey localSocket fromAddr = key := makes
      rw [datagram_paths, same, Function.update_self, absent]
      rfl
  | received b path trust => exact makes.elim
  | addPeer identity => exact makes.elim
  | getPeer zta load => exact makes.elim
  | memoizeUpstreams planet moons => exact makes.elim
  | setMoonSeeds moonSeeds => exact makes.elim
  | processBackgroundTasks env => exact makes.elim

/-- The record of received packets only grows, by packets received now. -/
theorem handle_received (w : Watched) (now : Int) (event : Event) :
    (handle w now event).received = w.received ∨
      ∃ reception : Reception, reception.time = now ∧ (handle w now event).received = w.received ++ [reception] := by
  cases event with
  | received a key trust =>
      rcases receive_cases w now a key trust with same | ⟨-, -, -, -, -, -, recorded⟩
      · rw [handle, same]
        exact Or.inl rfl
      · exact Or.inr ⟨⟨now, a, key, trust⟩, rfl, recorded⟩
  | datagram localSocket fromAddr data env => exact Or.inl rfl
  | addPeer identity => exact Or.inl rfl
  | getPeer zta load => exact Or.inl rfl
  | memoizeUpstreams planet moons => exact Or.inl rfl
  | setMoonSeeds moonSeeds => exact Or.inl rfl
  | processBackgroundTasks env => exact Or.inl rfl

end Inversion

section History

/-- What was received was received by now. -/
def History (w : Watched) : Prop := ∀ r ∈ w.received, 0 ≤ r.time ∧ r.time ≤ w.clock

theorem clock_step (w : Watched) (input : Input) : ((step w input).clock : Int) = w.now input := rfl

theorem clock_le (w : Watched) (input : Input) : (w.clock : Int) ≤ w.now input := by
  unfold Watched.now
  omega

theorem received_step {w : Watched} {input : Input} {r : Reception} (member : r ∈ w.received) :
    r ∈ (step w input).received := by
  rcases handle_received w (w.now input) input.event with same | ⟨last, -, more⟩
  · exact same.symm ▸ member
  · exact more.symm ▸ List.mem_append_left _ member

theorem history_step {w : Watched} (history : History w) (input : Input) : History (step w input) := by
  intro r member
  rw [clock_step]
  have forward := clock_le w input
  have before (old : r ∈ w.received) : 0 ≤ r.time ∧ r.time ≤ w.now input := by
    have bounds := history r old
    omega
  rcases handle_received w (w.now input) input.event with same | ⟨last, time, more⟩
  · exact before (same ▸ member)
  · have split : r ∈ w.received ++ [last] := more ▸ member
    rcases List.mem_append.mp split with old | new
    · exact before old
    · rw [List.mem_singleton.mp new, time]
      omega

/-- When packets of a kind were received. -/
def receivedAt (received : List Reception) (kind : Reception → Prop) (time : Int) : Prop :=
  ∃ r ∈ received, kind r ∧ r.time = time

theorem receivedAt_step {w : Watched} {input : Input} {kind : Reception → Prop} (time : Int)
    (happened : receivedAt w.received kind time) : receivedAt (step w input).received kind time := by
  obtain ⟨r, member, isKind⟩ := happened
  exact ⟨r, received_step member, isKind⟩

theorem receivedAt_past {w : Watched} (history : History w) {kind : Reception → Prop} (time : Int)
    (happened : receivedAt w.received kind time) : 0 ≤ time ∧ time ≤ w.clock := by
  obtain ⟨r, member, -, when⟩ := happened
  exact when ▸ history r member

/-- Nothing else is recorded as received. -/
theorem received_step_other {w : Watched} {input : Input}
    (other : ∀ a key trust, input.event ≠ .received a key trust) : (step w input).received = w.received := by
  rcases input with ⟨elapsed, event⟩
  cases event with
  | received a key trust => exact absurd rfl (other a key trust)
  | _ => rfl

end History

end NodeRuns

end ZeroTierNode
