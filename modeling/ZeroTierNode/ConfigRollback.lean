import ZeroTierNode.ConfigDelivery

/-!
The time of the applied configuration while chunks that the controller signed
arrive in any order, any number of times and from anyone. Nothing compares the time
of an update with that of the configuration in use, and a slot forgets what it held
when it is given to another update, so what counts is which update is completed when.
-/

namespace ZeroTierNode.ConfigRollback
open Library.Runs Library.Bytes ConfigAssembly ConfigDelivery

/-- A network's controller and the updates it ever issued, which differ in their ids. -/
structure Controller (capacity : Nat) where
  nwid : BitVec 64
  sign : List Byte → Signature
  updates : Set (ConfigUpdate capacity)
  network : ∀ u ∈ updates, u.nwid = nwid
  distinct : ∀ u ∈ updates, ∀ v ∈ updates, u.updateId = v.updateId → u = v
  ids : ∀ u ∈ updates, DistinctIds sign u

/-- The arrival of a chunk of one of the controller's updates. Where the controller's identity is known it
verifies what the controller signs. -/
structure SignedChunk {capacity : Nat} (controller : Controller capacity) (crypto : Crypto) where
  update : ConfigUpdate capacity
  issued : update ∈ controller.updates
  number : Nat
  inside : number < update.count
  RR : RuntimeEnvironment
  now : Int
  packetId : BitVec 64
  source : Address
  head : List Byte
  verifies : (RR.getIdentity (controllerFor controller.nwid)).isSet = true → ∀ message,
    (RR.getIdentity (controllerFor controller.nwid)).verify crypto message (controller.sign message) = true

section Steps

variable {capacity : Nat} (room : 0 < capacity) (limits : Limits) (order : SortOrder) {crypto : Crypto}
  {controller : Controller capacity}

def SignedChunk.delivery (chunk : SignedChunk controller crypto) : Delivery :=
  ⟨chunk.RR, chunk.now, chunk.packetId, chunk.source, chunk.head,
    chunk.update.payload controller.sign chunk.number⟩

/-- The network after the chunk was handled. -/
def step (net : ChunkedNetwork) (chunk : SignedChunk controller crypto) : ChunkedNetwork :=
  (receive room limits order crypto net chunk.delivery).elim net HandledChunk.net

/-- The time of the applied configuration does not decrease. -/
def NotOlder (net : ChunkedNetwork) (chunk : SignedChunk controller crypto) : Prop :=
  net.config.timestamp.toInt ≤ (step room limits order net chunk).config.timestamp.toInt

/-- The chunk is listed in the slot of its update. -/
def Listed (net : ChunkedNetwork) (u : ConfigUpdate capacity) (sign : List Byte → Signature) (number : Nat) : Prop :=
  (net.incoming (slotFor net.incoming u.updateId)).updateId = u.updateId ∧
    u.chunkId sign number ∈ (net.incoming (slotFor net.incoming u.updateId)).haveChunkIds

/-- The slot of the update lists all of its chunks but this one. -/
def LastMissing (net : ChunkedNetwork) (chunk : SignedChunk controller crypto) : Prop :=
  ∀ number < chunk.update.count, Listed net chunk.update controller.sign number ↔ number ≠ chunk.number

/-- The update was written for this member of this network, and is older than the applied configuration. -/
def Outdated (net : ChunkedNetwork) (chunk : SignedChunk controller crypto) : Prop :=
  ∃ nc, (NetworkConfig.fromDictionary limits order chunk.update.d).result = some nc ∧
    nc.issuedTo = chunk.RR.identity.address ∧ nc.networkId = net.id ∧
    nc.timestamp.toInt < net.config.timestamp.toInt

/-- A chunk that is looked at completes an outdated update. -/
def CompletesOutdated (net : ChunkedNetwork) (chunk : SignedChunk controller crypto) : Prop :=
  net.destroyed = false ∧ (chunk.RR.getIdentity (controllerFor net.id)).isSet = true ∧ LastMissing net chunk ∧
    Outdated limits order net chunk

/-- Every update has at most one slot, and that one holds nothing but chunks of the update. -/
structure Tracks (controller : Controller capacity) (net : ChunkedNetwork) : Prop where
  id : net.id = controller.nwid
  each : ∀ u ∈ controller.updates, ∃ received, Awaits controller.sign u received net.incoming

/-- A network that has seen no chunk of an update yet. -/
theorem tracks_start {net : ChunkedNetwork} (id : net.id = controller.nwid)
    (fresh : ∀ u ∈ controller.updates, ∀ i, (net.incoming i).updateId ≠ u.updateId) : Tracks controller net where
  id := id
  each := fun u issued => ⟨[], Or.inl ⟨rfl, fresh u issued⟩⟩

end Steps

section Configured

variable {capacity : Nat} {room : 0 < capacity} {limits : Limits} {order : SortOrder} {crypto : Crypto}
  {RR : RuntimeEnvironment} {net : ChunkedNetwork} {now : Int}

/-- The configuration changes only through `setConfiguration`. -/
theorem storeChunk_network (c : Fin 3) (updateId chunkId : BitVec 64) (totalLength chunkIndex : BitVec 32)
    (chunkData : List Byte) (forwarded : List Address) {h : HandledChunk capacity}
    (stored : storeChunk room limits order RR net now c updateId chunkId totalLength chunkIndex chunkData forwarded =
      h) :
    h.net.toNetwork =
      h.configured.elim net.toNetwork fun nc => (net.toNetwork.setConfiguration RR nc now).2 := by
  rw [← stored]
  unfold storeChunk
  dsimp only
  split_ifs with full complete
  · rfl
  · cases (NetworkConfig.fromDictionary limits order _).result with
    | none => rfl
    | some nc => rfl
  · rfl

theorem handleConfigChunk_network {packetId : BitVec 64} {source : Address} {chunk : List Byte} {ptr : Nat}
    {h : HandledChunk capacity}
    (handled : handleConfigChunk room limits order crypto RR net now packetId source chunk ptr = some h) :
    h.net.toNetwork =
      h.configured.elim net.toNetwork fun nc => (net.toNetwork.setConfiguration RR nc now).2 := by
  rcases handleConfigChunk_cases handled with
    rfl | ⟨data, tail, forwarded, -, stored⟩ | ⟨data, -, stored⟩
  · rfl
  · exact storeChunk_network _ _ _ _ _ _ _ stored.symm
  · exact storeChunk_network _ _ _ _ _ _ _ stored.symm

/-- A configuration that is for this member and network replaces a later one. -/
theorem setConfiguration_older (network : Network) (nc : NetworkConfig) :
    (network.setConfiguration RR nc now).2.config.timestamp.toInt < network.config.timestamp.toInt ↔
      network.destroyed = false ∧ nc.issuedTo = RR.identity.address ∧ nc.networkId = network.id ∧
        nc.timestamp.toInt < network.config.timestamp.toInt := by
  unfold Network.setConfiguration
  split_ifs with destroyed foreign same
  · rw [destroyed]
    simp
  · have other : ¬ (nc.issuedTo = RR.identity.address ∧ nc.networkId = network.id) := by tauto
    simp only [lt_irrefl, false_iff]
    intro all
    exact other ⟨all.2.1, all.2.2.1⟩
  · rw [← same]
    simp
  · rw [not_or, not_not, not_not] at foreign
    rw [Bool.not_eq_true] at destroyed
    exact ⟨fun older => ⟨destroyed, foreign.1, foreign.2, older⟩, fun all => all.2.2.2⟩

end Configured

section Run

variable {capacity : Nat} {room : 0 < capacity} {limits : Limits} {order : SortOrder} {crypto : Crypto}
  {controller : Controller capacity} {net : ChunkedNetwork} (chunk : SignedChunk controller crypto)

/-- A chunk of a destroyed network, or of one whose controller is not known, is dropped. -/
theorem step_dropped (addressable : capacity ≤ 2 ^ 32) (id : net.id = controller.nwid)
    (dropped : net.destroyed = true ∨ ¬ (chunk.RR.getIdentity (controllerFor controller.nwid)).isSet = true) :
    step room limits order net chunk = net := by
  unfold step receive handleConfigChunk
  by_cases destroyed : net.destroyed = true
  · rw [if_pos destroyed]
    rfl
  · have unknown := dropped.resolve_left destroyed
    rw [if_neg destroyed]
    dsimp only [SignedChunk.delivery]
    rw [readChunk_payload addressable controller.sign chunk.head chunk.inside, Option.bind_eq_bind, Option.bind_some]
    dsimp only
    rw [id]
    split_ifs
    · rfl
    · rfl

/-- Chunks of one update take a slot from another, but they never mix. -/
theorem awaits_other {u v : ConfigUpdate capacity} {sign : List Byte → Signature} {received after : List Nat}
    {h : HandledChunk capacity} (different : v.updateId ≠ u.updateId)
    (awaits : Awaits sign v received net.incoming) (fills : Fills limits order sign u after net h) :
    ∃ received, Awaits sign v received h.net.incoming := by
  have taken := fills.holds.update
  have elsewhere : ∀ j, (net.incoming j).updateId ≠ v.updateId → (h.net.incoming j).updateId ≠ v.updateId := by
    intro j other
    by_cases place : j = slotFor net.incoming u.updateId
    · rw [place, taken]
      exact different.symm
    · rw [fills.others j place]
      exact other
  rcases awaits with ⟨-, none⟩ | ⟨i, holds, unique⟩
  · exact ⟨[], Or.inl ⟨rfl, fun j => elsewhere j (none j)⟩⟩
  · by_cases place : i = slotFor net.incoming u.updateId
    · -- the slot of `v` was given to `u`, and what it held is forgotten
      refine ⟨[], Or.inl ⟨rfl, ?_⟩⟩
      intro j
      by_cases here : j = i
      · rw [here, place, taken]
        exact different.symm
      · exact elsewhere j (unique j here)
    · refine ⟨received, Or.inr ⟨i, ?_, fun j here => elsewhere j (unique j here)⟩⟩
      rw [fills.others i place]
      exact holds

/-- The chunk completes its update exactly if the slot lists all others. -/
theorem lastMissing_iff {received : List Nat} (awaits : Awaits controller.sign chunk.update received net.incoming) :
    LastMissing net chunk ↔ chunk.number ∉ received ∧ Complete chunk.update (received ++ [chunk.number]) := by
  have listed (number : Nat) (inside : number < chunk.update.count) :
      Listed net chunk.update controller.sign number ↔ number ∈ received :=
    awaits.duplicate_iff (controller.ids _ chunk.issued) inside
  constructor
  · intro last
    refine ⟨?_, ?_⟩
    · intro seen
      exact (last _ chunk.inside).mp ((listed _ chunk.inside).mpr seen) rfl
    · intro number inside
      by_cases same : number = chunk.number
      · rw [same]
        exact List.mem_append_right _ (List.mem_singleton_self _)
      · exact List.mem_append_left _ ((listed number inside).mp ((last number inside).mpr same))
  · rintro ⟨new, complete⟩ number inside
    rw [listed number inside]
    constructor
    · intro seen same
      exact new (same ▸ seen)
    · intro other
      rcases List.mem_append.mp (complete number inside) with seen | last
      · exact seen
      · exact absurd (List.mem_singleton.mp last) other

/-- What a chunk does that is not dropped. -/
theorem step_chunk (addressable : capacity ≤ 2 ^ 32) (tracks : Tracks controller net) (alive : net.destroyed = false)
    (known : (chunk.RR.getIdentity (controllerFor controller.nwid)).isSet = true) :
    Tracks controller (step room limits order net chunk) ∧
      (¬ LastMissing net chunk → (step room limits order net chunk).toNetwork = net.toNetwork) ∧
      (LastMissing net chunk → (step room limits order net chunk).toNetwork =
        (NetworkConfig.fromDictionary limits order chunk.update.d).result.elim net.toNetwork
          fun nc => (net.toNetwork.setConfiguration chunk.RR nc chunk.now).2) := by
  obtain ⟨received, awaits⟩ := tracks.each chunk.update chunk.issued
  have network := controller.network _ chunk.issued
  have listens : Listens chunk.update.nwid net := ⟨tracks.id.trans network.symm, alive⟩
  have knows : Knows crypto controller.sign chunk.update.nwid chunk.delivery.RR := by
    rw [network]
    exact ⟨known, chunk.verifies known⟩
  rw [lastMissing_iff chunk awaits]
  rcases @receive_chunk _ room limits order _ _ _ _ _ addressable (controller.ids _ chunk.issued) awaits listens
      chunk.delivery knows _ chunk.inside rfl with ⟨seen, ignored⟩ | ⟨new, h, handled, fills⟩
  · have same : step room limits order net chunk = net := by
      rw [step, ignored]
      rfl
    rw [same]
    exact ⟨tracks, fun _ => rfl, fun last => absurd seen last.1⟩
  · have after : step room limits order net chunk = h.net := by
      rw [step, handled]
      rfl
    rw [after, handleConfigChunk_network handled]
    refine ⟨⟨fills.listens.id.trans network, ?_⟩, ?_, ?_⟩
    · intro v issued
      by_cases same : v.updateId = chunk.update.updateId
      · rw [controller.distinct v issued _ chunk.issued same]
        exact ⟨_, fills.awaits awaits⟩
      · obtain ⟨others, waiting⟩ := tracks.each v issued
        exact awaits_other same waiting fills
    · intro partly
      rw [(fills.incomplete fun complete => partly ⟨new, complete⟩).2]
      rfl
    · intro last
      rw [(fills.complete last.2).2]
      rfl

/-- A slot holds what it held before, or the update of the chunk. -/
theorem step_incoming (addressable : capacity ≤ 2 ^ 32) (i : Fin 3) :
    ((step room limits order net chunk).incoming i).updateId = chunk.update.updateId ∨
      (step room limits order net chunk).incoming i = net.incoming i := by
  have read := readChunk_payload addressable controller.sign chunk.head chunk.inside
  cases handled : receive room limits order crypto net chunk.delivery with
  | none =>
      rw [step, handled]
      exact Or.inr rfl
  | some h =>
      rw [step, handled, Option.elim_some]
      rcases handleConfigChunk_cases handled with
        rfl | ⟨data, tail, forwarded, signed, stored⟩ | ⟨data, legacy, -⟩
      · exact Or.inr rfl
      · obtain ⟨others, update, -⟩ := storeChunk_slot stored
        injection Option.some.inj (read.symm.trans signed) with _ same
        rw [← same] at update others
        by_cases place : i = slotFor net.incoming chunk.update.updateId
        · rw [place]
          exact Or.inl update
        · exact Or.inr (others i place)
      · cases Option.some.inj (read.symm.trans legacy)

theorem tracks_step (addressable : capacity ≤ 2 ^ 32) (tracks : Tracks controller net) :
    Tracks controller (step room limits order net chunk) := by
  by_cases dropped : net.destroyed = true ∨ ¬ (chunk.RR.getIdentity (controllerFor controller.nwid)).isSet = true
  · rw [step_dropped chunk addressable tracks.id dropped]
    exact tracks
  · rw [not_or, not_not, Bool.not_eq_true] at dropped
    exact (step_chunk chunk addressable tracks dropped.1 dropped.2).1

/-- The time decreases with exactly the chunks that complete an outdated update. -/
theorem notOlder_iff (addressable : capacity ≤ 2 ^ 32) (tracks : Tracks controller net) :
    NotOlder room limits order net chunk ↔ ¬ CompletesOutdated limits order net chunk := by
  unfold NotOlder CompletesOutdated
  rw [← not_lt, not_iff_not, tracks.id]
  by_cases dropped : net.destroyed = true ∨ ¬ (chunk.RR.getIdentity (controllerFor controller.nwid)).isSet = true
  · rw [step_dropped chunk addressable tracks.id dropped]
    simp only [lt_irrefl, false_iff]
    rintro ⟨alive, known, -⟩
    rcases dropped with destroyed | unknown
    · exact Bool.false_ne_true (alive.symm.trans destroyed)
    · exact unknown known
  · rw [not_or, not_not, Bool.not_eq_true] at dropped
    obtain ⟨-, otherwise, configures⟩ := @step_chunk _ room limits order _ _ _ chunk addressable tracks dropped.1
      dropped.2
    by_cases last : LastMissing net chunk
    · rw [configures last]
      unfold Outdated
      cases (NetworkConfig.fromDictionary limits order chunk.update.d).result with
      | none => simp
      | some nc =>
          have older := @setConfiguration_older chunk.RR chunk.now net.toNetwork nc
          simpa [dropped.1, dropped.2, last] using older
    · rw [otherwise last]
      simp [last]

end Run

/-- Chunks of a controller's updates arrive at a network in any order, as often as anyone sends them. The time of
the applied configuration never decreases exactly if no chunk arrives that is the last one missing in the slot of
an update for this member with an earlier time than the applied configuration. -/
theorem timestamp_never_decreases_iff {capacity : Nat} (room : 0 < capacity) (limits : Limits) (order : SortOrder)
    (crypto : Crypto) (addressable : capacity ≤ 2 ^ 32) (controller : Controller capacity) (start : ChunkedNetwork)
    (id : start.id = controller.nwid)
    (fresh : ∀ u ∈ controller.updates, ∀ i, (start.incoming i).updateId ≠ u.updateId)
    (chunks : List (SignedChunk controller crypto)) :
    Along (step room limits order) (NotOlder room limits order) start chunks ↔
      Along (step room limits order) (fun net chunk => ¬ CompletesOutdated limits order net chunk) start chunks := by
  apply @along_iff_of_invariant _ _ _ (Tracks controller)
  · intro net chunk tracks
    exact tracks_step chunk addressable tracks
  · intro net chunk tracks
    exact notOlder_iff chunk addressable tracks
  · exact tracks_start id fresh

section Small

open NetworkConfig (smallDictionary)

/-- Two configurations of network 1000000 for the member 2, issued at the times 1 and 2. -/
def issuedConfig (index : Fin 2) : NetworkConfig := { memberConfig with timestamp := BitVec.ofNat 64 (index + 1) }

theorem issuedConfig_written (index : Fin 2) : ((issuedConfig index).toDictionary (smallDictionary "")).isSome := by
  decide +revert +kernel

def issuedDictionary (index : Fin 2) : Dictionary 16384 := Option.get _ (issuedConfig_written index)

theorem issuedDictionary_text (index : Fin 2) : (issuedDictionary index).text ≠ [] :=
  toDictionary_nonempty (Option.some_get (issuedConfig_written index)).symm

theorem maxChunkLen_positive : 0 < maxChunkLen := by decide

theorem maxChunkLen_short : maxChunkLen < 2 ^ 16 := by decide

def issuedUpdate (index : Fin 2) : ConfigUpdate 16384 :=
  ⟨0x1000000, BitVec.ofNat 64 (index + 1), issuedDictionary index, issuedDictionary_text index, maxChunkLen,
    maxChunkLen_positive, maxChunkLen_short, chunks_of_maxChunkLen (issuedDictionary index).fits⟩

theorem issuedUpdate_count (index : Fin 2) : (issuedUpdate index).count = 1 := by
  decide +revert +kernel

theorem issuedUpdate_read (index : Fin 2) :
    (NetworkConfig.fromDictionary {} smallOrder (issuedUpdate index).d).result = some (issuedConfig index) := by
  decide +revert +kernel

def smallController : Controller 16384 where
  nwid := 0x1000000
  sign := endSignature
  updates := Set.range issuedUpdate
  network := by
    rintro u ⟨index, rfl⟩
    rfl
  distinct := by
    rintro u ⟨index, rfl⟩ v ⟨other, rfl⟩ same
    have injective : ∀ index other : Fin 2, BitVec.ofNat 64 (index + 1) = BitVec.ofNat 64 (other + 1) →
        index = other := by decide
    rw [injective index other same]
  ids := by
    rintro u ⟨index, rfl⟩ number inside other otherInside _
    rw [issuedUpdate_count index] at inside otherInside
    omega

/-- The only chunk of an update, from anyone. -/
def issuedChunk (index : Fin 2) : SignedChunk smallController endCrypto where
  update := issuedUpdate index
  issued := ⟨index, rfl⟩
  number := 0
  inside := by
    rw [issuedUpdate_count index]
    exact Nat.one_pos
  RR := member
  now := 0
  packetId := 0
  source := 3
  head := List.replicate 28 0
  verifies := fun _ message => knows_member.verifies message

abbrev smallStep : ChunkedNetwork → SignedChunk smallController endCrypto → ChunkedNetwork :=
  step NetworkConfig.small_room {} smallOrder

theorem initial_fresh : ∀ u ∈ smallController.updates, ∀ i,
    ((ChunkedNetwork.initial 0x1000000).incoming i).updateId ≠ u.updateId := by
  rintro u ⟨index, rfl⟩ i
  have positive : ∀ index : Fin 2, (0 : BitVec 64) ≠ BitVec.ofNat 64 (index + 1) := by decide
  exact positive index

/-- The only chunk of an update that has no slot is applied. -/
theorem issuedChunk_applied {net : ChunkedNetwork} {index : Fin 2} (tracks : Tracks smallController net)
    (alive : net.destroyed = false)
    (unlisted : ∀ i, (net.incoming i).updateId ≠ (issuedUpdate index).updateId) :
    (smallStep net (issuedChunk index)).config = issuedConfig index ∧
      (smallStep net (issuedChunk index)).destroyed = false := by
  have last : LastMissing net (issuedChunk index) := by
    intro number inside
    have only : number < 1 := (issuedUpdate_count index) ▸ inside
    constructor
    · intro listed
      exact absurd listed.1 (unlisted _)
    · intro other
      exact absurd (Nat.lt_one_iff.mp only) other
  have applied := (@step_chunk _ NetworkConfig.small_room {} smallOrder _ _ _ (issuedChunk index) (by decide) tracks
    alive knows_member.identity).2.2 last
  rw [show (issuedChunk index).update = issuedUpdate index from rfl, issuedUpdate_read, Option.elim_some] at applied
  have addressed : ¬ ((issuedConfig index).issuedTo ≠ (issuedChunk index).RR.identity.address ∨
      (issuedConfig index).networkId ≠ net.id) := by
    rw [tracks.id]
    exact fun foreign => foreign.elim (fun other => other rfl) (fun other => other rfl)
  rw [applied, Network.setConfiguration, if_neg (by rw [alive]; exact Bool.false_ne_true), if_neg addressed]
  by_cases same : net.config = issuedConfig index
  · rw [if_pos same]
    exact ⟨same, alive⟩
  · rw [if_neg same]
    exact ⟨rfl, alive⟩

theorem initial_tracks : Tracks smallController (.initial 0x1000000) := tracks_start rfl initial_fresh

theorem first_applied (index : Fin 2) :
    (smallStep (.initial 0x1000000) (issuedChunk index)).config = issuedConfig index :=
  (issuedChunk_applied initial_tracks rfl (initial_fresh _ ⟨index, rfl⟩)).1

theorem not_outdated {net : ChunkedNetwork} {index : Fin 2}
    (current : net.config.timestamp.toInt ≤ (issuedConfig index).timestamp.toInt) :
    ¬ CompletesOutdated {} smallOrder net (issuedChunk index) := by
  rintro ⟨-, -, -, nc, read, -, -, older⟩
  have same := (issuedUpdate_read index).symm.trans read
  rw [← Option.some.inj same] at older
  omega

/-- Two updates that arrive in the order they were issued. -/
theorem updates_in_order : Along smallStep (NotOlder NetworkConfig.small_room {} smallOrder)
    (.initial 0x1000000) [issuedChunk 0, issuedChunk 1] := by
  apply (timestamp_never_decreases_iff (by decide : 0 < 16384) {} smallOrder endCrypto (by decide) smallController
    (.initial 0x1000000) rfl initial_fresh [issuedChunk 0, issuedChunk 1]).mpr
  refine ⟨not_outdated (by decide), not_outdated ?_, trivial⟩
  rw [first_applied]
  decide

theorem later_unlisted {net : ChunkedNetwork}
    (unlisted : ∀ i, (net.incoming i).updateId ≠ (issuedUpdate 0).updateId) :
    ∀ i, ((smallStep net (issuedChunk 1)).incoming i).updateId ≠ (issuedUpdate 0).updateId := by
  intro i
  rcases @step_incoming _ NetworkConfig.small_room {} smallOrder _ _ net (issuedChunk 1) (by decide) i with
    update | same
  · rw [update]
    exact (by decide : (2 : BitVec 64) ≠ 1)
  · rw [same]
    exact unlisted i

theorem older_after {net : ChunkedNetwork} (tracks : Tracks smallController net) (alive : net.destroyed = false)
    (config : net.config = issuedConfig 1)
    (unlisted : ∀ i, (net.incoming i).updateId ≠ (issuedUpdate 0).updateId) :
    (smallStep net (issuedChunk 0)).config = issuedConfig 0 ∧
      ¬ NotOlder NetworkConfig.small_room {} smallOrder net (issuedChunk 0) := by
  have applied := (issuedChunk_applied tracks alive unlisted).1
  refine ⟨applied, ?_⟩
  unfold NotOlder
  rw [applied, config]
  decide

/-- The later update arrives first and is applied, and so is the earlier one that arrives after it. -/
theorem earlier_update_applied :
    (run smallStep (.initial 0x1000000) [issuedChunk 1]).config = issuedConfig 1 ∧
      (run smallStep (.initial 0x1000000) [issuedChunk 1, issuedChunk 0]).config = issuedConfig 0 ∧
      ¬ Along smallStep (NotOlder NetworkConfig.small_room {} smallOrder) (.initial 0x1000000)
        [issuedChunk 1, issuedChunk 0] := by
  have later := issuedChunk_applied initial_tracks rfl (initial_fresh _ ⟨1, rfl⟩)
  have tracks : Tracks smallController (smallStep (.initial 0x1000000) (issuedChunk 1)) :=
    tracks_step (issuedChunk 1) (by decide) initial_tracks
  have earlier := older_after tracks later.2 later.1 (later_unlisted (initial_fresh _ ⟨0, rfl⟩))
  rw [run_cons, run_cons, run_cons, run_nil, run_nil]
  exact ⟨later.1, earlier.1, fun along => earlier.2 along.2.1⟩

end Small

end ZeroTierNode.ConfigRollback
