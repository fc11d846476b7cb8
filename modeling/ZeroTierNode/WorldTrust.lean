import Mathlib.Logic.Relation
import ZeroTierNode.PeerBinding

/-!
The chain of trust of planets and moons: a world is replaced only by one that the
key named in it has signed. The addresses of the roots are kept beside the worlds,
and are the same after every call as if they were collected anew.
-/

namespace ZeroTierNode
open Library.Runs Relation

namespace World

/-- What a replacement has to be. -/
structure Succeeds (crypto : Crypto) (w update : World) : Prop where
  id : update.id = w.id
  type : update.type = w.type
  ts : w.ts < update.ts
  signed : crypto.eccVerify w.updatesMustBeSignedBy (update.serialize true) update.signature = true

variable {crypto : Crypto} {w update : World}

/-- A world with the id 0 counts as none, and anything replaces it. -/
theorem succeeds_of_shouldBeReplacedBy (replaced : w.shouldBeReplacedBy crypto update = true) (named : w.id ≠ 0)
    (kind : w.type ≠ .null) : w.Succeeds crypto update := by
  unfold shouldBeReplacedBy at replaced
  rcases of_decide_eq_true replaced with none | null | ⟨id, ts, type, -, signed⟩
  · exact absurd none named
  · exact absurd null kind
  · exact ⟨id.symm, type.symm, ts, signed⟩

/-- A chain of replacements leaves the id and the type as they were, and does not go back in time. -/
theorem same_of_reflTransGen (chain : ReflTransGen (Succeeds crypto) w update) :
    update.id = w.id ∧ update.type = w.type ∧ (update = w ∨ w.ts < update.ts) := by
  induction chain with
  | refl => exact ⟨rfl, rfl, .inl rfl⟩
  | tail _ last ih =>
      obtain ⟨id, type, same | ts⟩ := ih
      · exact ⟨last.id.trans id, last.type.trans type, .inr (same ▸ last.ts)⟩
      · exact ⟨last.id.trans id, last.type.trans type, .inr (BitVec.lt_trans ts last.ts)⟩

end World

namespace Topology

/-- The addresses of the roots other than this node in order, each of them once, and whether this node is a root. -/
structure Memoized (t : Topology) : Prop where
  sorted : t.upstreamAddresses.Pairwise fun first second => first < second
  upstream : ∀ a, a ∈ t.upstreamAddresses ↔ ∃ root ∈ t.roots, root.identity ≠ t.identity ∧ root.identity.address = a
  amUpstream : t.amUpstream = true ↔ ∃ root ∈ t.roots, root.identity = t.identity

/-- The kinds of the worlds, and that no two moons have the same id. -/
structure Coherent (t : Topology) : Prop where
  planet : t.planet.id ≠ 0 → t.planet.type = .planet
  moons : ∀ m ∈ t.moons, m.type = .moon
  distinct : (t.moons.map World.id).Nodup

/-- One call keeps every world with an id, replaces it by one that succeeds it, or removes it. -/
structure Trusts (crypto : Crypto) (t next : Topology) : Prop where
  planet : t.planet.id ≠ 0 → next.planet = t.planet ∨ t.planet.Succeeds crypto next.planet
  moons : ∀ m ∈ t.moons, m.id ≠ 0 → ∀ m' ∈ next.moons, m'.id = m.id → m' = m ∨ m.Succeeds crypto m'

section Memoize

theorem memoizeRoot_worlds (t : Topology) (root : World.Root) :
    (t.memoizeRoot root).planet = t.planet ∧ (t.memoizeRoot root).moons = t.moons := by
  unfold memoizeRoot
  split
  · exact ⟨rfl, rfl⟩
  · split <;> exact ⟨rfl, rfl⟩

theorem foldl_memoizeRoot_worlds (roots : List World.Root) (t : Topology) :
    (roots.foldl memoizeRoot t).planet = t.planet ∧ (roots.foldl memoizeRoot t).moons = t.moons := by
  induction roots generalizing t with
  | nil => exact ⟨rfl, rfl⟩
  | cons root roots ih =>
      obtain ⟨planet, moons⟩ := ih (t.memoizeRoot root)
      exact ⟨planet.trans (t.memoizeRoot_worlds root).1, moons.trans (t.memoizeRoot_worlds root).2⟩

theorem memoizeUpstreams_planet (t : Topology) : t.memoizeUpstreams.planet = t.planet :=
  (foldl_memoizeRoot_worlds t.roots _).1

theorem memoizeUpstreams_moons (t : Topology) : t.memoizeUpstreams.moons = t.moons :=
  (foldl_memoizeRoot_worlds t.roots _).2

theorem memoizeUpstreams_roots (t : Topology) : t.memoizeUpstreams.roots = t.roots := by
  unfold roots
  rw [memoizeUpstreams_planet, memoizeUpstreams_moons]

/-- What a turn of the loop collects. -/
theorem memoizeRoot_collects (t : Topology) (root : World.Root) :
    (t.upstreamAddresses.Nodup → (t.memoizeRoot root).upstreamAddresses.Nodup) ∧
    (∀ a, a ∈ (t.memoizeRoot root).upstreamAddresses ↔
      a ∈ t.upstreamAddresses ∨ (root.identity ≠ t.identity ∧ root.identity.address = a)) ∧
    ((t.memoizeRoot root).amUpstream = true ↔ t.amUpstream = true ∨ root.identity = t.identity) := by
  unfold memoizeRoot
  by_cases own : root.identity = t.identity
  · rw [if_pos own]
    simp [own]
  · rw [if_neg own]
    by_cases listed : t.upstreamAddresses.contains root.identity.address = true
    · have member := List.contains_iff_mem.mp listed
      rw [if_pos listed]
      refine ⟨fun nodup => nodup, fun a => ⟨.inl, ?_⟩, by simp [own]⟩
      rintro (before | ⟨-, same⟩)
      · exact before
      · exact same ▸ member
    · have absent : root.identity.address ∉ t.upstreamAddresses := fun member => listed (List.contains_iff_mem.mpr member)
      rw [if_neg listed]
      refine ⟨fun nodup => ?_, fun a => ?_, by simp [own, addPeer]⟩
      · rw [List.nodup_append]
        refine ⟨nodup, List.nodup_singleton _, ?_⟩
        intro a before b last same
        rw [List.mem_singleton.mp last] at same
        exact absent (same ▸ before)
      · rw [List.mem_append, List.mem_singleton]
        simp [own, eq_comm]

theorem foldl_memoizeRoot_collects (roots : List World.Root) (t : Topology) :
    (t.upstreamAddresses.Nodup → (roots.foldl memoizeRoot t).upstreamAddresses.Nodup) ∧
    (∀ a, a ∈ (roots.foldl memoizeRoot t).upstreamAddresses ↔
      a ∈ t.upstreamAddresses ∨ ∃ root ∈ roots, root.identity ≠ t.identity ∧ root.identity.address = a) ∧
    ((roots.foldl memoizeRoot t).amUpstream = true ↔
      t.amUpstream = true ∨ ∃ root ∈ roots, root.identity = t.identity) := by
  induction roots generalizing t with
  | nil => simp
  | cons root roots ih =>
      obtain ⟨nodup, upstream, amUpstream⟩ := ih (t.memoizeRoot root)
      obtain ⟨first, here, own⟩ := t.memoizeRoot_collects root
      rw [List.foldl_cons]
      refine ⟨fun before => nodup (first before), fun a => ?_, ?_⟩
      · rw [upstream, here, memoizeRoot_identity, or_assoc]
        simp only [List.mem_cons, exists_eq_or_imp]
      · rw [amUpstream, own, memoizeRoot_identity, or_assoc]
        simp only [List.mem_cons, exists_eq_or_imp]

/-- The sort at the end of `_memoizeUpstreams` leaves the addresses in strict order. -/
theorem memoizeUpstreams_memoized (t : Topology) : t.memoizeUpstreams.Memoized := by
  obtain ⟨nodup, upstream, amUpstream⟩ :=
    foldl_memoizeRoot_collects t.roots { t with upstreamAddresses := [], amUpstream := false }
  have permuted := List.perm_insertionSort (· ≤ ·)
    (t.roots.foldl memoizeRoot { t with upstreamAddresses := [], amUpstream := false }).upstreamAddresses
  refine ⟨?_, ?_, ?_⟩
  · have distinct := permuted.nodup_iff.mpr (nodup List.nodup_nil)
    have sorted := List.pairwise_insertionSort (fun first second : Address => first ≤ second)
      (t.roots.foldl memoizeRoot { t with upstreamAddresses := [], amUpstream := false }).upstreamAddresses
    exact (sorted.and distinct).imp fun both => BitVec.lt_of_le_ne both.1 both.2
  · intro a
    rw [memoizeUpstreams_roots, memoizeUpstreams_identity]
    exact permuted.mem_iff.trans ((upstream a).trans (by simp))
  · rw [memoizeUpstreams_roots, memoizeUpstreams_identity]
    exact amUpstream.trans (by simp)

end Memoize

section Install

variable {crypto : Crypto} {t next : Topology}

/-- The worlds that `addWorld` may leave behind. -/
theorem installWorld_cases {newWorld : World} {alwaysAcceptNew : Bool}
    (installed : t.installWorld crypto newWorld alwaysAcceptNew = some next) :
    next.identity = t.identity ∧
    ((newWorld.type = .planet ∧ t.planet.shouldBeReplacedBy crypto newWorld = true ∧ next.planet = newWorld ∧
        next.moons = t.moons) ∨
      (newWorld.type = .moon ∧ next.planet = t.planet ∧ ∃ m ∈ t.moons, m.id = newWorld.id ∧
        m.shouldBeReplacedBy crypto newWorld = true ∧
        next.moons = t.moons.set (t.moons.findIdx fun m => m.id = newWorld.id) newWorld) ∨
      (newWorld.type = .moon ∧ next.planet = t.planet ∧ (∀ m ∈ t.moons, m.id ≠ newWorld.id) ∧
        next.moons = t.moons ++ [newWorld])) := by
  unfold installWorld at installed
  cases kind : newWorld.type with
  | null =>
      rw [kind] at installed
      cases installed
  | planet =>
      rw [kind] at installed
      dsimp only at installed
      by_cases replaced : t.planet.shouldBeReplacedBy crypto newWorld = true
      · rw [if_pos replaced] at installed
        cases installed
        exact ⟨rfl, .inl ⟨rfl, replaced, rfl, rfl⟩⟩
      · rw [if_neg replaced] at installed
        cases installed
  | moon =>
      rw [kind] at installed
      dsimp only at installed
      cases found : t.moons.find? fun m => m.id = newWorld.id with
      | some m =>
          rw [found] at installed
          dsimp only at installed
          by_cases replaced : m.shouldBeReplacedBy crypto newWorld = true
          · rw [if_pos replaced] at installed
            cases installed
            have id : m.id = newWorld.id := by simpa using List.find?_some found
            exact ⟨rfl, .inr (.inl ⟨rfl, rfl, m, List.mem_of_find?_eq_some found, id, replaced, rfl⟩)⟩
          · rw [if_neg replaced] at installed
            cases installed
      | none =>
          have absent : ∀ m ∈ t.moons, m.id ≠ newWorld.id := by
            intro m listed
            simpa using List.find?_eq_none.mp found m listed
          rw [found] at installed
          dsimp only at installed
          by_cases accepted : alwaysAcceptNew = true
          · rw [if_pos accepted] at installed
            cases installed
            exact ⟨rfl, .inr (.inr ⟨rfl, rfl, absent, rfl⟩)⟩
          · rw [if_neg accepted] at installed
            split at installed
            · cases installed
              exact ⟨rfl, .inr (.inr ⟨rfl, rfl, absent, rfl⟩)⟩
            · cases installed

/-- Two moons of a coherent topology with one id are the same. -/
theorem Coherent.eq_of_id (coherent : t.Coherent) {m m' : World} (listed : m ∈ t.moons) (listed' : m' ∈ t.moons)
    (same : m'.id = m.id) : m' = m :=
  List.inj_on_of_nodup_map coherent.distinct listed' listed same

theorem trusts_refl (coherent : t.Coherent) : t.Trusts crypto t :=
  ⟨fun _ => .inl rfl, fun _ listed _ _ listed' same => .inl (coherent.eq_of_id listed listed' same)⟩

theorem installWorld_trusts (coherent : t.Coherent) {newWorld : World} {alwaysAcceptNew : Bool}
    (installed : t.installWorld crypto newWorld alwaysAcceptNew = some next) : t.Trusts crypto next := by
  obtain ⟨-, ⟨-, replaced, planet, moons⟩ | ⟨-, planet, m, listed, id, replaced, moons⟩ | ⟨-, planet, absent, moons⟩⟩ :=
    installWorld_cases installed
  · refine ⟨fun named => ?_, ?_⟩
    · have kind : t.planet.type ≠ .null := by
        rw [coherent.planet named]
        decide
      rw [planet]
      exact .inr (World.succeeds_of_shouldBeReplacedBy replaced named kind)
    · rw [moons]
      exact (@trusts_refl crypto t coherent).moons
  · refine ⟨fun _ => .inl planet, ?_⟩
    intro old before named m' after same
    rw [moons] at after
    rcases List.mem_or_eq_of_mem_set after with kept | new
    · exact .inl (coherent.eq_of_id before kept same)
    · have this : m = old := coherent.eq_of_id before listed (id.trans (new ▸ same))
      rw [new, ← this]
      have kind : m.type ≠ .null := by
        rw [coherent.moons m listed]
        decide
      exact .inr (World.succeeds_of_shouldBeReplacedBy replaced (this ▸ named) kind)
  · refine ⟨fun _ => .inl planet, ?_⟩
    intro old before _ m' after same
    rw [moons] at after
    rcases List.mem_append.mp after with kept | new
    · exact .inl (coherent.eq_of_id before kept same)
    · rw [List.mem_singleton.mp new] at same
      exact absurd same.symm (absent old before)

theorem installWorld_coherent (coherent : t.Coherent) {newWorld : World} {alwaysAcceptNew : Bool}
    (installed : t.installWorld crypto newWorld alwaysAcceptNew = some next) : next.Coherent := by
  obtain ⟨-, ⟨kind, -, planet, moons⟩ | ⟨kind, planet, m, listed, id, -, moons⟩ | ⟨kind, planet, absent, moons⟩⟩ :=
    installWorld_cases installed
  · refine ⟨fun _ => planet ▸ kind, ?_, ?_⟩ <;> rw [moons]
    · exact coherent.moons
    · exact coherent.distinct
  · refine ⟨?_, ?_, ?_⟩
    · rw [planet]
      exact coherent.planet
    · intro m' after
      rw [moons] at after
      rcases List.mem_or_eq_of_mem_set after with kept | new
      · exact coherent.moons m' kept
      · exact new ▸ kind
    · -- the new world takes the place of the one with its id
      have inside : t.moons.findIdx (fun m => m.id = newWorld.id) < t.moons.length :=
        List.findIdx_lt_length_of_exists ⟨m, listed, decide_eq_true id⟩
      have found : (t.moons[t.moons.findIdx fun m => m.id = newWorld.id]).id = newWorld.id :=
        of_decide_eq_true (List.findIdx_getElem (w := inside))
      have ids : (t.moons.set (t.moons.findIdx fun m => m.id = newWorld.id) newWorld).map World.id = t.moons.map World.id := by
        have listedIds : t.moons.findIdx (fun m => m.id = newWorld.id) < (t.moons.map World.id).length := by
          rwa [List.length_map]
        have same : (t.moons.map World.id)[t.moons.findIdx fun m => m.id = newWorld.id] = newWorld.id := by
          rw [List.getElem_map, found]
        calc
          _ = (t.moons.map World.id).set (t.moons.findIdx fun m => m.id = newWorld.id) newWorld.id := List.map_set
          _ = (t.moons.map World.id).set (t.moons.findIdx fun m => m.id = newWorld.id)
              (t.moons.map World.id)[t.moons.findIdx fun m => m.id = newWorld.id] := by rw [same]
          _ = t.moons.map World.id := List.set_getElem_self listedIds
      rw [moons, ids]
      exact coherent.distinct
  · refine ⟨?_, ?_, ?_⟩
    · rw [planet]
      exact coherent.planet
    · intro m' after
      rw [moons] at after
      rcases List.mem_append.mp after with kept | new
      · exact coherent.moons m' kept
      · rw [List.mem_singleton.mp new]
        exact kind
    · rw [moons, List.map_append, List.nodup_append]
      refine ⟨coherent.distinct, List.nodup_singleton _, ?_⟩
      intro id before other new same
      obtain ⟨m, listed, rfl⟩ := List.mem_map.mp before
      exact absent m listed (same.trans (List.mem_singleton.mp new))

end Install

end Topology

namespace StoredTopology

variable (platform : Platform)

/-- The calls that change the worlds; between them anything may be written to the store. -/
inductive WorldOp where
  | addWorld (newWorld : World) (alwaysAcceptNew : Bool)
  | addMoon (id : BitVec 64) (seed : Address)
  | removeMoon (id : BitVec 64)
  | written (nvs : Nvs)

def worldStep (s : StoredTopology) : WorldOp → StoredTopology
  | .addWorld newWorld alwaysAcceptNew => s.addWorld platform newWorld alwaysAcceptNew
  | .addMoon id seed => s.addMoon platform id seed
  | .removeMoon id => s.removeMoon platform id
  | .written nvs => { s with nvs := nvs }

section Steps

variable {platform} {s : StoredTopology}

/-- What one call does to a topology that is coherent and memoized. -/
structure Step (crypto : Crypto) (t next : Topology) : Prop where
  trusts : t.Trusts crypto next
  coherent : next.Coherent
  memoized : next.Memoized

theorem addWorld_step (coherent : s.topology.Coherent) (memoized : s.topology.Memoized) (newWorld : World)
    (alwaysAcceptNew : Bool) :
    Step platform.crypto s.topology (s.addWorld platform newWorld alwaysAcceptNew).topology := by
  unfold addWorld
  cases installed : s.topology.installWorld platform.crypto newWorld alwaysAcceptNew with
  | none => exact ⟨Topology.trusts_refl coherent, coherent, memoized⟩
  | some t =>
      have trusts := Topology.installWorld_trusts coherent installed
      have after := Topology.installWorld_coherent coherent installed
      dsimp only
      refine ⟨⟨?_, ?_⟩, ⟨?_, ?_, ?_⟩, t.memoizeUpstreams_memoized⟩
      · rw [t.memoizeUpstreams_planet]
        exact trusts.planet
      · rw [t.memoizeUpstreams_moons]
        exact trusts.moons
      · rw [t.memoizeUpstreams_planet]
        exact after.planet
      · rw [t.memoizeUpstreams_moons]
        exact after.moons
      · rw [t.memoizeUpstreams_moons]
        exact after.distinct

theorem addSeed_step {crypto : Crypto} (coherent : s.topology.Coherent) (memoized : s.topology.Memoized) (id : BitVec 64)
    (seed : Address) : Step crypto s.topology (s.addSeed id seed).topology := by
  have trusts := @Topology.trusts_refl crypto _ coherent
  unfold addSeed
  split
  · exact ⟨⟨trusts.planet, trusts.moons⟩, ⟨coherent.planet, coherent.moons, coherent.distinct⟩,
      ⟨memoized.sorted, memoized.upstream, memoized.amUpstream⟩⟩
  · exact ⟨trusts, coherent, memoized⟩

theorem removeMoon_step {crypto : Crypto} (coherent : s.topology.Coherent) (id : BitVec 64) :
    Step crypto s.topology (s.removeMoon platform id).topology := by
  unfold removeMoon
  dsimp only
  refine ⟨⟨?_, ?_⟩, ⟨?_, ?_, ?_⟩, Topology.memoizeUpstreams_memoized _⟩
  · rw [Topology.memoizeUpstreams_planet]
    exact fun _ => .inl rfl
  · rw [Topology.memoizeUpstreams_moons]
    intro m listed _ m' after same
    exact .inl (coherent.eq_of_id listed (List.mem_filter.mp after).1 same)
  · rw [Topology.memoizeUpstreams_planet]
    exact coherent.planet
  · rw [Topology.memoizeUpstreams_moons]
    exact fun m after => coherent.moons m (List.mem_filter.mp after).1
  · rw [Topology.memoizeUpstreams_moons]
    exact coherent.distinct.sublist (List.filter_sublist.map _)

theorem worldStep_step (coherent : s.topology.Coherent) (memoized : s.topology.Memoized) (op : WorldOp) :
    Step platform.crypto s.topology (s.worldStep platform op).topology := by
  cases op with
  | addWorld newWorld alwaysAcceptNew => exact addWorld_step coherent memoized newWorld alwaysAcceptNew
  | addMoon id seed =>
      change Step platform.crypto s.topology (s.addMoon platform id seed).topology
      rcases @addMoon_cases platform s id seed with same | same | ⟨w, same⟩ <;> rw [same]
      · exact addSeed_step coherent memoized id seed
      · exact ⟨Topology.trusts_refl coherent, coherent, memoized⟩
      · exact addWorld_step coherent memoized w true
  | removeMoon id => exact removeMoon_step coherent id
  | written nvs => exact ⟨Topology.trusts_refl coherent, coherent, memoized⟩

theorem new_coherent (identity : Identity) : (Topology.new identity).Coherent where
  planet := by simp [Topology.new, World.new]
  moons := fun _ listed => absurd listed List.not_mem_nil
  distinct := List.nodup_nil

theorem new_memoized (identity : Identity) : (Topology.new identity).Memoized := by
  refine ⟨List.Pairwise.nil, fun a => ?_, ?_⟩ <;> simp [Topology.new, Topology.roots, World.new]

variable (platform) in
theorem coherent_run (identity : Identity) (nvs : Nvs) (ops : List WorldOp) :
    (run (worldStep platform) ⟨Topology.new identity, nvs⟩ ops).topology.Coherent ∧
      (run (worldStep platform) ⟨Topology.new identity, nvs⟩ ops).topology.Memoized :=
  @run_preserves _ _ _ (fun s : StoredTopology => s.topology.Coherent ∧ s.topology.Memoized) _ ops
    (fun _ op both => ⟨(worldStep_step both.1 both.2 op).coherent, (worldStep_step both.1 both.2 op).memoized⟩)
    ⟨new_coherent identity, new_memoized identity⟩

end Steps

/-- A world after any number of replacements. -/
structure Descends (crypto : Crypto) (w last : World) : Prop where
  id : last.id = w.id
  type : last.type = w.type
  ts : last = w ∨ w.ts < last.ts
  chain : ReflTransGen (World.Succeeds crypto) w last

theorem Descends.of_chain {crypto : Crypto} {w last : World} (chain : ReflTransGen (World.Succeeds crypto) w last) :
    Descends crypto w last := by
  obtain ⟨id, type, ts⟩ := World.same_of_reflTransGen chain
  exact ⟨id, type, ts, chain⟩

/-- What holds from a state on: each call is trusted, so that the planet and every moon that stays descend from what
they were, and the moons and the cached addresses are in order. -/
structure ChainOfTrust (s : StoredTopology) (after : List WorldOp) : Prop where
  each : Along (worldStep platform)
    (fun s op => s.topology.Trusts platform.crypto (s.worldStep platform op).topology) s after
  planet : s.topology.planet.id ≠ 0 →
    Descends platform.crypto s.topology.planet (run (worldStep platform) s after).topology.planet
  moons : ∀ m ∈ s.topology.moons, m.id ≠ 0 →
    Throughout (worldStep platform) (fun s => ∃ m' ∈ s.topology.moons, m'.id = m.id) s after →
      ∃ m' ∈ (run (worldStep platform) s after).topology.moons, Descends platform.crypto m m'
  distinct : ((run (worldStep platform) s after).topology.moons.map World.id).Nodup
  memoized : (run (worldStep platform) s after).topology.Memoized

variable {platform} in
theorem chainOfTrust_of_coherent {s : StoredTopology} (coherent : s.topology.Coherent) (memoized : s.topology.Memoized)
    (after : List WorldOp) : ChainOfTrust platform s after := by
  induction after generalizing s with
  | nil =>
      exact ⟨trivial, fun _ => .of_chain .refl, fun m listed _ _ => ⟨m, listed, .of_chain .refl⟩, coherent.distinct,
        memoized⟩
  | cons op after ih =>
      have step : Step platform.crypto s.topology (s.worldStep platform op).topology :=
        worldStep_step coherent memoized op
      have rest := ih step.coherent step.memoized
      refine ⟨⟨step.trusts, rest.each⟩, ?_, ?_, rest.distinct, rest.memoized⟩
      · intro named
        rw [run_cons]
        rcases step.trusts.planet named with same | succeeds
        · rw [← same] at named ⊢
          exact rest.planet named
        · exact .of_chain (.head succeeds (rest.planet (succeeds.id ▸ named)).chain)
      · intro m listed named stays
        obtain ⟨m', listed', same⟩ := stays.2.start
        rw [run_cons]
        have later := rest.moons m' listed' (same ▸ named) (same ▸ stays.2)
        obtain ⟨last, found, chain⟩ := later
        rcases step.trusts.moons m listed named m' listed' same with rfl | succeeds
        · exact ⟨last, found, chain⟩
        · exact ⟨last, found, .of_chain (.head succeeds chain.chain)⟩

theorem worlds_chain_of_trust (identity : Identity) (nvs : Nvs) (before after : List WorldOp) :
    ChainOfTrust platform (run (worldStep platform) ⟨Topology.new identity, nvs⟩ before) after :=
  chainOfTrust_of_coherent (coherent_run platform identity nvs before).1 (coherent_run platform identity nvs before).2
    after

end StoredTopology

end ZeroTierNode
