import ZeroTierNode.NodeRuns

/-!
Trust in peers and paths, which rests on packets received from them in the last
`ZT_TRUST_EXPIRATION` milliseconds, and the relaying that rests on this trust.
-/

namespace ZeroTierNode.TrustExpiration
open Library.Runs Library.Stamps NodeRuns

/-- When trusted packets from a peer were received. -/
def fromPeer (received : List Reception) (a : Address) : Int → Prop :=
  receivedAt received fun r => r.trustEstablished = true ∧ r.peer = a

/-- When trusted packets over a path were received. -/
def overPath (received : List Reception) (key : Path.HashKey) : Int → Prop :=
  receivedAt received fun r => r.trustEstablished = true ∧ r.path = key

/-- Trust in a known peer or path rests on a recent packet now and at every later time, and so did the trust that
something was relayed on. -/
structure Sound (w : Watched) : Prop where
  peers : ∀ a peer, w.topology.peers a = some peer → ∀ now, (w.clock : Int) ≤ now →
    peer.trustEstablished now = true → Lately trustExpiration (fromPeer w.received a) now
  paths : ∀ key path, w.topology.paths key = some path → ∀ now, (w.clock : Int) ≤ now →
    path.trustEstablished now = true → Lately trustExpiration (overPath w.received key) now
  relayed : ∀ r ∈ w.relayed, r.amUpstream = true ∨ Lately trustExpiration (overPath w.received r.path) r.time

/-- A peer or a path that is made within `ZT_TRUST_EXPIRATION` after boot is one that was trusted before. -/
structure Ripe (w : Watched) (input : Input) : Prop where
  peers : ∀ a, input.event.MakesPeer w.topology a → w.topology.peers a = none →
    trustExpiration ≤ w.now input ∨ ∃ time, fromPeer w.received a time
  paths : ∀ key, input.event.MakesPath key → w.topology.paths key = none →
    trustExpiration ≤ w.now input ∨ ∃ time, overPath w.received key time

section Step

variable {w : Watched} {input : Input}

theorem makesPeer_received {a : Address} (makes : input.event.MakesPeer w.topology a) :
    (step w input).received = w.received := by
  apply received_step_other
  intro b key trust same
  rw [same] at makes
  exact makes

theorem makesPath_received {key : Path.HashKey} (makes : input.event.MakesPath key) :
    (step w input).received = w.received := by
  apply received_step_other
  intro a path trust same
  rw [same] at makes
  exact makes

/-- The zero stamp of a new object is sound exactly when it is made late enough, or was trusted before. -/
theorem new_sound_iff (history : History w) (same : (step w input).received = w.received)
    (kind : Reception → Prop) :
    Backed trustExpiration (receivedAt (step w input).received kind) (w.now input) 0 ↔
      trustExpiration ≤ w.now input ∨ ∃ time, receivedAt w.received kind time := by
  rw [← same]
  exact backed_zero_iff (receivedAt_past (history_step history input))

theorem peers_sound_step (history : History w) (sound : Sound w) (ripe : Ripe w input) {a : Address} {peer : Peer}
    (known : (step w input).topology.peers a = some peer) :
    Backed trustExpiration (fromPeer (step w input).received a) (w.now input)
      peer.lastTrustEstablishedPacketReceived := by
  have kept {old : Peer} (before : w.topology.peers a = some old) :
      Backed trustExpiration (fromPeer (step w input).received a) (w.now input)
        old.lastTrustEstablishedPacketReceived :=
    Backed.mono (sound.peers a old before) (clock_le w input) receivedAt_step
  rcases handle_peers known with before | ⟨old, key, trust, event, received, before, recorded⟩ |
    ⟨absent, makes, identity, new⟩
  · exact kept before
  · rw [received]
    cases trust with
    | false =>
        have unchanged : (old.received (w.now input) false).lastTrustEstablishedPacketReceived =
            old.lastTrustEstablishedPacketReceived := rfl
        rw [unchanged]
        exact kept before
    | true =>
        refine backed_of_happened ⟨⟨w.now input, a, key, true⟩, ?_, ⟨rfl, rfl⟩, rfl⟩ (Int.le_refl _)
        exact recorded.symm ▸ List.mem_append_right _ List.mem_cons_self
  · rw [new]
    exact (new_sound_iff history (makesPeer_received makes) _).mpr (ripe.peers a makes absent)

theorem paths_sound_step (history : History w) (sound : Sound w) (ripe : Ripe w input) {key : Path.HashKey} {path : Path}
    (known : (step w input).topology.paths key = some path) :
    Backed trustExpiration (overPath (step w input).received key) (w.now input)
      path.lastTrustEstablishedPacketReceived := by
  rcases handle_paths known with before | ⟨old, a, event, received, before, recorded⟩ | ⟨absent, makes, new⟩
  · exact Backed.mono (sound.paths key path before) (clock_le w input) receivedAt_step
  · rw [received]
    refine backed_of_happened ⟨⟨w.now input, a, key, true⟩, ?_, ⟨rfl, rfl⟩, rfl⟩ (Int.le_refl _)
    exact recorded.symm ▸ List.mem_append_right _ List.mem_cons_self
  · rw [new]
    exact (new_sound_iff history (makesPath_received makes) _).mpr (ripe.paths key makes absent)

/-- Whatever is relayed was relayed before, or for a path that is known now. -/
theorem relayed_step {r : Relayed} (member : r ∈ (step w input).relayed) :
    r ∈ w.relayed ∨ (r.time = w.now input ∧ (r.amUpstream = true ∨
      ∃ path, (step w input).topology.paths r.path = some path ∧ path.trustEstablished r.time = true)) := by
  rcases input with ⟨elapsed, event⟩
  cases event with
  | datagram localSocket fromAddr data env =>
      change r ∈ (onRemotePacket w _ _ data env).relayed at member
      simp only [onRemotePacket] at member
      split at member
      · exact Or.inl member
      · rename_i relays
        rcases List.mem_append.mp member with before | last
        · exact Or.inl before
        · right
          rw [List.mem_singleton.mp last]
          refine ⟨rfl, (relay_trusted relays).imp id fun trusted => ?_⟩
          exact ⟨_, Function.update_self .., trusted⟩
  | received a key trust =>
      left
      change r ∈ (receive w _ a key trust).relayed at member
      unfold receive at member
      split at member <;> exact member
  | addPeer identity => exact Or.inl member
  | getPeer zta load => exact Or.inl member
  | memoizeUpstreams planet moons => exact Or.inl member
  | setMoonSeeds moonSeeds => exact Or.inl member
  | processBackgroundTasks env => exact Or.inl member

/-- A step keeps trust sound exactly when the objects that it makes are ripe. -/
theorem sound_step_iff (history : History w) (sound : Sound w) : Sound (step w input) ↔ Ripe w input := by
  constructor
  · intro after
    constructor
    · intro a makes absent
      obtain ⟨identity, made⟩ := @handle_makesPeer _ (w.now input) _ _ makes absent
      exact (new_sound_iff history (makesPeer_received makes) _).mp (after.peers a (Peer.new identity) made)
    · intro key makes absent
      have made := @handle_makesPath _ (w.now input) _ _ makes absent
      exact (new_sound_iff history (makesPath_received makes) _).mp (after.paths key Path.new made)
  · intro ripe
    constructor
    · intro a peer known
      exact peers_sound_step history sound ripe known
    · intro key path known
      exact paths_sound_step history sound ripe known
    · intro r member
      rcases relayed_step member with before | ⟨time, upstream | ⟨path, known, trusted⟩⟩
      · exact (sound.relayed r before).imp id fun lately => lately.mono receivedAt_step
      · exact Or.inl upstream
      · right
        exact paths_sound_step history sound ripe known r.time (by rw [time]) trusted

end Step

/-- Trust rests on packets in exactly the runs that make no new peer or path within `ZT_TRUST_EXPIRATION` after boot. -/
theorem trust_sound_iff (identity : Identity) (lowBandwidthMode : Bool) (inputs : List Input) :
    Throughout step Sound (start identity lowBandwidthMode) inputs ↔
      Along step Ripe (start identity lowBandwidthMode) inputs := by
  apply throughout_iff_along_of_invariant (fun _ input history => history_step history input)
    (fun _ _ history sound => sound_step_iff history sound)
  · intro r member
    cases member
  · constructor
    · intro a peer known
      cases known
    · intro key path known
      cases known
    · intro r member
      cases member

section Forwarding

def self : Identity := ⟨0x1111111111, 1⟩

def root : Identity := ⟨0x62f865ae71, 2⟩

/-- A planet with one root. -/
def onePlanet : World := ⟨.planet, 1, 1, 0, 0, [⟨root, []⟩]⟩

/-- An empty packet from 2222222222 to 3333333333. -/
def strangersPacket : List Library.Bytes.Byte :=
  [0, 0, 0, 0, 0, 0, 0, 1] ++ List.replicate 5 0x33 ++ List.replicate 5 0x22 ++ List.replicate 10 0

/-- All that is sent arrives, and there is no cache. -/
def lan : RelayEnvironment := ⟨fun _ => none, fun _ => 0, fun _ _ _ => true⟩

def booted : Watched := start self false

/-- The node starts, and a second after boot a stranger's packet for another stranger comes in. -/
def forwarding : List Input :=
  [⟨700, .memoizeUpstreams onePlanet []⟩, ⟨300, .datagram 3 (.v4 0xc0a80107 0x2709) strangersPacket lan⟩]

/-- A node that nobody ever sent a packet to relays a stranger's packet to its root. -/
theorem relayed_without_trust :
    (run step booted forwarding).received = [] ∧
      (run step booted forwarding).relayed =
        [⟨1000, Path.hashKey 3 (.v4 0xc0a80107 0x2709), false,
          [.sendDirect 0x62f865ae71 (Armor.incrementHops strangersPacket) true]⟩] ∧
      ¬ Throughout step Sound booted forwarding := by
  have received : (run step booted forwarding).received = [] := rfl
  have relayed : (run step booted forwarding).relayed =
      [⟨1000, Path.hashKey 3 (.v4 0xc0a80107 0x2709), false,
        [.sendDirect 0x62f865ae71 (Armor.incrementHops strangersPacket) true]⟩] := by
    decide +kernel
  refine ⟨received, relayed, ?_⟩
  rintro ⟨-, -, sound⟩
  have member := List.mem_singleton_self (Relayed.mk 1000 (Path.hashKey 3 (.v4 0xc0a80107 0x2709)) false
    [.sendDirect 0x62f865ae71 (Armor.incrementHops strangersPacket) true])
  rw [← relayed] at member
  rcases sound.relayed _ member with upstream | ⟨time, ⟨r, among, -⟩, -⟩
  · cases upstream
  · cases among

end Forwarding

end ZeroTierNode.TrustExpiration
