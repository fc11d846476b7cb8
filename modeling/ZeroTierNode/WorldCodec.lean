import ZeroTierNode.HelloRoundTrip
import ZeroTierNode.PeerBinding
import ZeroTierNode.WireForms

/-!
Worlds on the wire: what `World::serialize` writes is read back by `deserialize`,
alone or as one of the worlds that an OK(HELLO) brings, and what is signed of a
world determines all of it but the signature.
-/

namespace ZeroTierNode
open Library.Bytes Library.Outcomes Library.Records Buffer

namespace World

/-- The counts that `deserialize` accepts. -/
structure WithinLimits (w : World) : Prop where
  roots : w.roots.length ≤ maxRoots
  endpoints : ∀ r ∈ w.roots, r.stableEndpoints.length ≤ maxStableEndpointsPerRoot

theorem readKind_toByte (kind : Kind) : readKind kind.toByte = some kind := by
  cases kind <;> rfl

/-- The bytes behind the signature. -/
def tail (w : World) : List Byte :=
  wordBytes 1 (BitVec.ofNat 8 w.roots.length) ++ w.roots.flatMap Root.serialize ++
    (if w.type = .moon then wordBytes 2 (0 : BitVec 16) else [])

/-- The bytes before the signature. -/
def head (w : World) : List Byte :=
  wordBytes 1 w.type.toByte ++ wordBytes 8 w.id ++ wordBytes 8 w.ts ++ wordBytes 64 w.updatesMustBeSignedBy

theorem length_head (w : World) : w.head.length = 81 := by simp [head]

theorem serialize_plain (w : World) : w.serialize false = w.head ++ wordBytes 96 w.signature ++ w.tail := by
  simp [serialize, head, tail]

theorem serialize_signed (w : World) : w.serialize true =
    wordBytes 8 (0x7f7f7f7f7f7f7f7f : BitVec 64) ++ w.head ++ w.tail ++ wordBytes 8 (0xf7f7f7f7f7f7f7f7 : BitVec 64) := by
  simp [serialize, head, tail]

section Reading

variable {b rest : List Byte} {p : Nat}

theorem readEndpoints_of_stands {endpoints : List InetAddress}
    (here : Stands (endpoints.flatMap InetAddress.serialize ++ rest) b p) :
    readEndpoints b endpoints.length p = some (endpoints, p + (endpoints.flatMap InetAddress.serialize).length) ∧
      Stands rest b (p + (endpoints.flatMap InetAddress.serialize).length) := by
  induction endpoints generalizing p with
  | nil => exact ⟨rfl, here⟩
  | cons endpoint endpoints ih =>
      rw [List.flatMap_cons, List.append_assoc, stands_append] at here
      obtain ⟨first, others⟩ := here
      obtain ⟨read, behind⟩ := ih others
      rw [List.flatMap_cons, List.length_append, ← Nat.add_assoc]
      refine ⟨?_, behind⟩
      rw [List.length_cons, readEndpoints, endpoint.recovers b p first, Option.bind_eq_bind, Option.bind_some]
      dsimp only
      rw [read]
      rfl

theorem readRoots_of_stands {roots : List Root}
    (few : ∀ r ∈ roots, r.stableEndpoints.length ≤ maxStableEndpointsPerRoot)
    (here : Stands (roots.flatMap Root.serialize ++ rest) b p) :
    (readRoots b roots.length p).outcome = .returned (roots, p + (roots.flatMap Root.serialize).length) ∧
      Stands rest b (p + (roots.flatMap Root.serialize).length) := by
  induction roots generalizing p with
  | nil => exact ⟨rfl, here⟩
  | cons root roots ih =>
      have counted : (BitVec.ofNat 8 root.stableEndpoints.length).toNat = root.stableEndpoints.length := by
        have limit := few root List.mem_cons_self
        unfold maxStableEndpointsPerRoot at limit
        rw [BitVec.toNat_ofNat]
        omega
      have size : root.serialize.length = 72 + (root.stableEndpoints.flatMap InetAddress.serialize).length := by
        simp [Root.serialize, Identity.serialize, Address.appendTo]
        omega
      rw [List.flatMap_cons, List.append_assoc] at here
      simp only [Root.serialize, List.append_assoc] at here
      obtain ⟨identity, here⟩ := Identity.deserializeAt_of_stands here
      obtain ⟨count, here⟩ := at8_of_stands here
      obtain ⟨endpoints, here⟩ := readEndpoints_of_stands here
      obtain ⟨others, behind⟩ := ih (fun r listed => few r (List.mem_cons_of_mem _ listed)) here
      have ends : p + (List.flatMap Root.serialize (root :: roots)).length =
          p + 71 + 1 + (root.stableEndpoints.flatMap InetAddress.serialize).length +
            (roots.flatMap Root.serialize).length := by
        rw [List.flatMap_cons, List.length_append, size]
        omega
      rw [ends]
      refine ⟨?_, behind⟩
      rw [List.length_cons, readRoots]
      have idRead : (Identity.deserialize b p).outcome = .returned ((root.identity, none), 71) := identity
      refine (Logged.outcome_bind idRead _).trans ?_
      refine (Logged.outcome_bind (Logged.ofOption_outcome count) _).trans ?_
      rw [if_neg (by rw [counted]; exact Nat.not_lt.mpr (few root List.mem_cons_self)), counted]
      refine (Logged.outcome_bind (Logged.ofOption_outcome endpoints) _).trans ?_
      exact Logged.outcome_bind others _

theorem deserialize_of_stands {w : World} (limits : w.WithinLimits) (here : Stands (w.serialize false ++ rest) b p) :
    (deserialize b p).outcome = .returned (w, (w.serialize false).length) ∧
      Stands rest b (p + (w.serialize false).length) := by
  have counted : (BitVec.ofNat 8 w.roots.length).toNat = w.roots.length := by
    have limit := limits.roots
    unfold maxRoots at limit
    rw [BitVec.toNat_ofNat]
    omega
  have size : (w.serialize false).length = 178 + (w.roots.flatMap Root.serialize).length +
      if w.type = .moon then 2 else 0 := by
    rw [serialize_plain, List.length_append, List.length_append, length_head]
    by_cases moon : w.type = .moon <;> simp [tail, moon] <;> omega
  have stop : Stands rest b (p + (w.serialize false).length) := (stands_append.mp here).2
  refine ⟨?_, stop⟩
  rw [serialize_plain] at here
  simp only [head, tail, List.append_assoc] at here
  obtain ⟨type, here⟩ := at8_of_stands here
  obtain ⟨id, here⟩ := at64_of_stands here
  obtain ⟨ts, here⟩ := at64_of_stands here
  obtain ⟨updatesMustBeSignedBy, here⟩ := atWord_of_stands (by decide : 512 ≤ 8 * 64) (by decide) here
  obtain ⟨signature, here⟩ := atWord_of_stands (by decide : 768 ≤ 8 * 96) (by decide) here
  obtain ⟨numRoots, here⟩ := at8_of_stands here
  obtain ⟨roots, here⟩ := readRoots_of_stands limits.endpoints here
  simp only [Nat.add_assoc, Nat.reduceAdd] at ts updatesMustBeSignedBy signature numRoots roots here
  unfold deserialize
  refine (Logged.outcome_bind (Logged.ofOption_outcome type) _).trans ?_
  refine (Logged.outcome_bind (Logged.ofOption_outcome (readKind_toByte w.type)) _).trans ?_
  refine (Logged.outcome_bind (Logged.ofOption_outcome id) _).trans ?_
  refine (Logged.outcome_bind (Logged.ofOption_outcome ts) _).trans ?_
  refine (Logged.outcome_bind (Logged.ofOption_outcome updatesMustBeSignedBy) _).trans ?_
  refine (Logged.outcome_bind (Logged.ofOption_outcome signature) _).trans ?_
  refine (Logged.outcome_bind (Logged.ofOption_outcome numRoots) _).trans ?_
  rw [if_neg (by rw [counted]; exact Nat.not_lt.mpr limits.roots), counted]
  refine (Logged.outcome_bind roots _).trans ?_
  dsimp only
  rw [size]
  by_cases moon : w.type = .moon
  · rw [if_pos moon, if_pos moon]
    rw [if_pos moon] at here
    obtain ⟨attached, -⟩ := at16_of_stands here
    refine (Logged.outcome_bind (Logged.ofOption_outcome attached) _).trans ?_
    have taken : p + (178 + (w.roots.flatMap Root.serialize).length) + (0 : BitVec 16).toNat + 2 - p =
        178 + (w.roots.flatMap Root.serialize).length + 2 := by
      have zero : (0 : BitVec 16).toNat = 0 := rfl
      omega
    exact congrArg (fun taken => Outcome.returned (w, taken)) taken
  · rw [if_neg moon, if_neg moon]
    have taken : p + (178 + (w.roots.flatMap Root.serialize).length) - p =
        178 + (w.roots.flatMap Root.serialize).length + 0 := by
      omega
    exact congrArg (fun taken => Outcome.returned (w, taken)) taken

/-- What is written alone is read back whole. -/
theorem deserialize_serialize {w : World} (limits : w.WithinLimits) :
    (deserialize (w.serialize false) 0).outcome = .returned (w, (w.serialize false).length) := by
  have here : Stands (w.serialize false ++ []) (w.serialize false) 0 := by
    rw [List.append_nil]
    exact stands_self _
  exact (deserialize_of_stands limits here).1

/-- Signed worlds with the same bytes differ at most in their signatures. -/
theorem serialize_signed_inj {w w' : World} (limits : w.WithinLimits) (limits' : w'.WithinLimits)
    (same : w.serialize true = w'.serialize true) : { w with signature := w'.signature } = w' := by
  have headAndTail : w.head = w'.head ∧ w.tail = w'.tail := by
    rw [serialize_signed, serialize_signed] at same
    have both := List.append_cancel_right same
    rw [List.append_assoc, List.append_assoc] at both
    exact List.append_inj (List.append_cancel_left both) (by rw [length_head, length_head])
  have plain : ({ w with signature := w'.signature } : World).serialize false = w'.serialize false := by
    rw [serialize_plain, serialize_plain w', ← headAndTail.1, ← headAndTail.2]
    rfl
  have read := deserialize_serialize (⟨limits.roots, limits.endpoints⟩ :
    ({ w with signature := w'.signature } : World).WithinLimits)
  rw [plain, deserialize_serialize limits'] at read
  exact (congrArg Prod.fst (Outcome.returned.inj read)).symm

end Reading

/-- A world within the limits fits the buffers into which worlds are written, so that no call throws over it. -/
theorem serialize_length_le {w : World} (limits : w.WithinLimits) (forSign : Bool) :
    (w.serialize forSign).length ≤ maxSerializedLength := by
  have endpoint (addr : InetAddress) : addr.serialize.length ≤ 19 := by
    cases addr <;> simp [InetAddress.serialize]
  have root : ∀ r ∈ w.roots, r.serialize.length ≤ 680 := by
    intro r listed
    have few := limits.endpoints r listed
    have endpoints := length_flatMap_le r.stableEndpoints endpoint
    unfold maxStableEndpointsPerRoot at few
    simp only [Root.serialize, Identity.serialize, Address.appendTo, List.length_append, wordBytes_length]
    omega
  have roots := length_flatMap_le_of_mem root
  have few := limits.roots
  unfold maxRoots at few
  have tail : w.tail.length ≤ 2723 := by
    unfold World.tail
    rw [List.length_append, List.length_append, wordBytes_length]
    split
    · rw [wordBytes_length]
      omega
    · rw [List.length_nil]
      omega
  cases forSign with
  | false =>
      rw [serialize_plain, List.length_append, List.length_append, length_head, wordBytes_length]
      unfold maxSerializedLength
      omega
  | true =>
      rw [serialize_signed, List.length_append, List.length_append, List.length_append, length_head, wordBytes_length,
        wordBytes_length]
      unfold maxSerializedLength
      omega

theorem serialize_ne_nil (w : World) : w.serialize false ≠ [] := by
  intro empty
  have length := congrArg List.length empty
  rw [serialize_plain, List.length_append, List.length_append, length_head, List.length_nil] at length
  omega

end World

namespace Topology

def shouldAcceptWorldUpdateFrom (t : Topology) (addr : Address) : Bool :=
  t.upstreamAddresses.contains addr || t.moonSeeds.any fun seed => seed.2 = addr

end Topology

namespace StoredTopology

variable (platform : Platform)

/-- The loop of `_doOK` over the worlds; a world that can be read fits the buffers, so `addWorld` does not throw. -/
def updateWorlds (packet : List Byte) : Nat → Nat → Nat → StoredTopology → Reading StoredTopology
  | 0, _, _, s => return s
  | fuel + 1, ptr, endOfWorlds, s =>
      if ptr < endOfWorlds then do
        let (w, taken) ← World.deserialize packet ptr
        updateWorlds packet fuel (ptr + taken) endOfWorlds (s.addWorld platform w false)
      else return s

/-- The part of `_doOK` that takes the worlds out of the reply to a HELLO. -/
def okHello (s : StoredTopology) (peer : Address) (packet : List Byte) : Reading StoredTopology := do
  let _timestamp ← plainly (at64 packet 37)
  let vProto ← plainly (at8 packet 45)
  let _vMajor ← plainly (at8 packet 46)
  let _vMinor ← plainly (at8 packet 47)
  let _vRevision ← plainly (at16 packet 48)
  if vProto.toNat < 4 then return s
  else do
    let ptr ← plainly (if 50 < packet.length then (InetAddress.deserialize packet 50).map (fun read => 50 + read.2)
      else some 50)
    if ptr + 2 ≤ packet.length then do
      let worldsLen ← plainly (at16 packet ptr)
      if s.topology.shouldAcceptWorldUpdateFrom peer then
        updateWorlds platform packet worldsLen.toNat (ptr + 2) (ptr + 2 + worldsLen.toNat) s
      else return s
    else return s

/-- The worlds are added one after the other. -/
def addWorlds (s : StoredTopology) (worlds : List World) : StoredTopology :=
  worlds.foldl (fun s w => s.addWorld platform w false) s

variable {platform}

theorem updateWorlds_of_stands {worlds : List World} (limits : ∀ w ∈ worlds, w.WithinLimits) {packet rest : List Byte}
    {ptr fuel : Nat} (here : Stands (worlds.flatMap (fun w => w.serialize false) ++ rest) packet ptr)
    (enough : worlds.length ≤ fuel) (s : StoredTopology) :
    (updateWorlds platform packet fuel ptr (ptr + (worlds.flatMap fun w => w.serialize false).length) s).outcome =
      .returned (s.addWorlds platform worlds) := by
  induction worlds generalizing ptr fuel s with
  | nil =>
      cases fuel with
      | zero => rfl
      | succ fuel =>
          unfold updateWorlds
          rw [if_neg (by simp)]
          rfl
  | cons w worlds ih =>
      cases fuel with
      | zero => exact absurd enough (by simp)
      | succ fuel =>
          have nonempty := List.length_pos_iff.mpr w.serialize_ne_nil
          rw [List.flatMap_cons, List.append_assoc] at here
          obtain ⟨read, here⟩ := World.deserialize_of_stands (limits w List.mem_cons_self) here
          unfold updateWorlds
          rw [List.flatMap_cons, List.length_append, if_pos (by omega)]
          refine (Logged.outcome_bind read _).trans ?_
          dsimp only
          rw [← Nat.add_assoc]
          exact ih (fun w' listed => limits w' (List.mem_cons_of_mem _ listed)) here (Nat.le_of_succ_le_succ enough) _

/-- An OK(HELLO) of a version that is spoken, with worlds behind the reported address. -/
structure CarriesWorlds (packet : List Byte) (worlds : List World) : Prop where
  fits : packet.length ≤ Packet.maxPacketLength
  version : ∃ vProto, at8 packet 45 = some vProto ∧ 4 ≤ vProto.toNat
  layout : ∃ externalSurfaceAddress : InetAddress, Stands (externalSurfaceAddress.serialize ++
    (wordBytes 2 (BitVec.ofNat 16 (worlds.flatMap fun w => w.serialize false).length) ++
      worlds.flatMap fun w => w.serialize false)) packet 50

theorem okHello_adds {packet : List Byte} {worlds : List World} (carries : CarriesWorlds packet worlds)
    (limits : ∀ w ∈ worlds, w.WithinLimits) (s : StoredTopology) {peer : Address}
    (accepted : s.topology.shouldAcceptWorldUpdateFrom peer = true) :
    (s.okHello platform peer packet).outcome = .returned (s.addWorlds platform worlds) := by
  obtain ⟨fits, ⟨vProto, version, spoken⟩, surface, here⟩ := carries
  have inside := here.inside (by simp [InetAddress.serialize_ne_nil])
  rw [List.length_append, List.length_append, wordBytes_length] at inside
  unfold Packet.maxPacketLength at fits
  have present {count width i : Nat} (bound : i + count ≤ 50) : ∃ word, atWord width count packet i = some word :=
    Option.isSome_iff_exists.mp ((atWord_isSome width count packet i).mpr (by omega))
  obtain ⟨timestamp, timestampRead⟩ := @present 8 64 37 (by decide)
  obtain ⟨vMajor, vMajorRead⟩ := @present 1 8 46 (by decide)
  obtain ⟨vMinor, vMinorRead⟩ := @present 1 8 47 (by decide)
  obtain ⟨vRevision, vRevisionRead⟩ := @present 2 16 48 (by decide)
  obtain ⟨surfaceHere, here⟩ := stands_append.mp here
  have nonempty := List.length_pos_iff.mpr surface.serialize_ne_nil
  have surfaceRead : (if 50 < packet.length then (InetAddress.deserialize packet 50).map (fun read => 50 + read.2)
      else some 50) = some (50 + surface.serialize.length) := by
    rw [if_pos (by omega), surface.recovers packet 50 surfaceHere]
    rfl
  obtain ⟨size, here⟩ := at16_of_stands here
  have counted : (BitVec.ofNat 16 (worlds.flatMap fun w => w.serialize false).length).toNat =
      (worlds.flatMap fun w => w.serialize false).length := by
    rw [BitVec.toNat_ofNat]
    omega
  have enough : worlds.length ≤ (worlds.flatMap fun w => w.serialize false).length :=
    length_le_written fun w _ => w.serialize_ne_nil
  unfold okHello
  refine (Logged.outcome_bind (Logged.ofOption_outcome timestampRead) _).trans ?_
  refine (Logged.outcome_bind (Logged.ofOption_outcome version) _).trans ?_
  refine (Logged.outcome_bind (Logged.ofOption_outcome vMajorRead) _).trans ?_
  refine (Logged.outcome_bind (Logged.ofOption_outcome vMinorRead) _).trans ?_
  refine (Logged.outcome_bind (Logged.ofOption_outcome vRevisionRead) _).trans ?_
  rw [if_neg (by omega)]
  refine (Logged.outcome_bind (Logged.ofOption_outcome surfaceRead) _).trans ?_
  rw [if_pos (by omega)]
  refine (Logged.outcome_bind (Logged.ofOption_outcome size) _).trans ?_
  rw [if_pos accepted, counted]
  rw [← List.append_nil (worlds.flatMap fun w => w.serialize false)] at here
  exact updateWorlds_of_stands limits here enough s

end StoredTopology

namespace Hello
open Armor CredentialPush HelloRoundTrip

namespace Receiver

/-- The worlds that the reply to a HELLO brings. -/
def worldUpdates (r : Receiver) (g : Greeting) : List World :=
  (if g.planetWorldId ≠ 0 ∧ g.planetWorldTimestamp < r.planet.ts ∧ g.planetWorldId = r.planet.id then [r.planet]
    else []) ++
    r.moons.filter fun m => (g.moonIdsAndTimestamps.find? fun i => i.1 = m.id).any fun i => i.2 < m.ts

theorem updates_eq (r : Receiver) (g : Greeting) : r.updates g = (r.worldUpdates g).map fun w => w.serialize false := by
  have moons : r.moons.flatMap g.moonUpdate =
      (r.moons.filter fun m => (g.moonIdsAndTimestamps.find? fun i => i.1 = m.id).any fun i => i.2 < m.ts).map
        fun w => w.serialize false := by
    induction r.moons with
    | nil => rfl
    | cons m moons ih =>
        rw [List.flatMap_cons, ih]
        unfold Greeting.moonUpdate
        cases found : g.moonIdsAndTimestamps.find? fun i => i.1 = m.id with
        | none =>
            rw [List.filter_cons_of_neg (by simp [found])]
            rfl
        | some i =>
            dsimp only
            by_cases newer : i.2 < m.ts
            · rw [if_pos newer, List.filter_cons_of_pos (by simp [found, newer])]
              rfl
            · rw [if_neg newer, List.filter_cons_of_neg (by simp [found, newer])]
              rfl
  unfold updates worldUpdates planetUpdate
  rw [moons, List.map_append]
  split <;> rfl

end Receiver

/-- What `_doHELLO` sends back carries its worlds. -/
theorem okHELLO_carries {r : Receiver} {pid : BitVec 64} {g : Greeting} {ok : List Byte} (made : r.okHELLO pid g = some ok) :
    StoredTopology.CarriesWorlds ok (r.worldUpdates g) := by
  have total : (r.updates g).flatten = (r.worldUpdates g).flatMap fun w => w.serialize false := by
    rw [r.updates_eq, List.flatMap_def]
  rw [okHELLO_eq] at made
  split at made
  · rename_i room
    let start := newPacket r.fresh.1 r.fresh.2 g.identity.address r.identity.address verbOk
    let fields := (r.okFields pid g.timestamp).flatten
    have startLength : start.length = 28 := newPacket_length _ _ _ _ _
    have front : (start ++ fields).length = 28 + fields.length := by rw [List.length_append, startLength]
    have shape : ok = start ++ (fields ++ (wordBytes 2 (BitVec.ofNat 16 (r.updates g).flatten.length) ++
        (r.updates g).flatten)) := by
      have behind : (start ++ fields ++ ([0, 0] :: r.updates g).flatten).drop (28 + fields.length + 2) =
          (r.updates g).flatten := by
        rw [← front, List.drop_append, List.drop_of_length_le (by omega), List.nil_append]
        have two : (start ++ fields).length + 2 - (start ++ fields).length = 2 := by omega
        rw [two]
        rfl
      rw [← Option.some.inj made, setAt16]
      change (start ++ fields ++ _).take (28 + fields.length) ++ _ ++ (start ++ fields ++ _).drop _ = _
      rw [behind, ← front, List.take_left, List.append_assoc, List.append_assoc]
    have standing : Stands (fields ++ (wordBytes 2 (BitVec.ofNat 16 (r.updates g).flatten.length) ++
        (r.updates g).flatten)) ok 28 := by
      rw [Stands, shape, List.drop_left' startLength]
    have length : ok.length = 52 + r.pathAddress.serialize.length + (r.updates g).flatten.length := by
      rw [shape, List.length_append, startLength]
      simp [fields, Receiver.okFields]
      omega
    simp only [fields, Receiver.okFields, List.flatten_cons, List.flatten_nil, List.append_nil, List.append_assoc]
      at standing
    obtain ⟨inReVerb, standing⟩ := at8_of_stands standing
    obtain ⟨inRePacketId, standing⟩ := at64_of_stands standing
    obtain ⟨timestamp, standing⟩ := at64_of_stands standing
    obtain ⟨vProto, standing⟩ := at8_of_stands standing
    obtain ⟨vMajor, standing⟩ := at8_of_stands standing
    obtain ⟨vMinor, standing⟩ := at8_of_stands standing
    obtain ⟨vRevision, standing⟩ := at16_of_stands standing
    refine ⟨?_, ⟨_, vProto, by decide⟩, r.pathAddress, ?_⟩
    · rw [length]
      exact room
    · rw [← total]
      exact standing
  · cases made

end Hello

theorem world_codec (platform : StoredTopology.Platform) :
    (∀ w : World, w.WithinLimits →
      (World.deserialize (w.serialize false) 0).outcome = .returned (w, (w.serialize false).length)) ∧
    (∀ (packet : List Byte) (worlds : List World) (s : StoredTopology) (peer : Address),
      StoredTopology.CarriesWorlds packet worlds → (∀ w ∈ worlds, w.WithinLimits) →
        s.topology.shouldAcceptWorldUpdateFrom peer = true →
          (s.okHello platform peer packet).outcome = .returned (s.addWorlds platform worlds)) ∧
    (∀ (r : Hello.Receiver) (pid : BitVec 64) (g : Hello.Greeting) (ok : List Byte), r.okHELLO pid g = some ok →
      StoredTopology.CarriesWorlds ok (r.worldUpdates g)) ∧
    (∀ w w' : World, w.WithinLimits → w'.WithinLimits → w.serialize true = w'.serialize true →
      { w with signature := w'.signature } = w') :=
  ⟨fun _ limits => World.deserialize_serialize limits,
    fun _ _ s _ carries limits accepted => StoredTopology.okHello_adds carries limits s accepted,
    fun _ _ _ _ made => Hello.okHELLO_carries made,
    fun _ _ limits limits' same => World.serialize_signed_inj limits limits' same⟩

end ZeroTierNode
