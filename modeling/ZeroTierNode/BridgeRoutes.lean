import Mathlib.Data.Finset.Card
import Mathlib.Logic.Relation
import ZeroTierNode.Frames
import ZeroTierNode.UpstreamContact
import ZeroTierNode.Library.Tallies

/-!
`Network::learnBridgeRoute`: the table of the MACs behind remote bridges. When it has
grown over its limit, all routes of the bridge with the most of them are thrown out,
until it is small enough.
-/

namespace ZeroTierNode.BridgeRoutes
open Library.Tallies Hashtable
open UpstreamContact (hashCode)

/-- `ZT_MAX_BRIDGE_ROUTES`. -/
def maxBridgeRoutes : Nat := 67108864

/-- `MAC::hashCode`. -/
def macHashCode (m : MAC) : Nat := (m.setWidth 32).toNat

/-- `_remoteBridgeRoutes`. -/
abbrev Routes := Hashtable MAC Address

/-- `counts`, `maxAddr` and `maxCount`. -/
structure Counting where
  counts : Hashtable Address Nat
  maxAddr : Address
  maxCount : Nat

namespace Counting

def start : Counting := ⟨ofCapacity 64, 0, 0⟩

/-- The turn of the first loop for a route to `a`. -/
def add (malloc : Nat → Bool) (s : Counting) (a : Address) : Counting :=
  let counts := s.counts.index hashCode malloc a (· + 1)
  let c := (counts.get hashCode a).getD 0
  if s.maxCount < c then ⟨counts, a, c⟩ else { s with counts := counts }

end Counting

/-- A round: the routes are counted in a first pass, and those of one bridge erased in a second; `none` when a pass
reads freed memory. -/
def cull (malloc : Nat → Bool) (routes : Routes) : Option Routes := do
  let counted ← routes.pass macHashCode (fun _ a => some a) (routes.size + 1) routes.begin
  let worst := (counted.1.map Prod.snd).foldl (Counting.add malloc) Counting.start
  let killed ← counted.2.pass macHashCode (fun _ a => if a = worst.maxAddr then none else some a)
    (counted.2.size + 1) counted.2.begin
  return killed.2

/-- The `while` loop. Whether `_grow` gets memory for the counts of a round depends on what is left of the fuel. -/
def cullWhile (limit : Nat) (mallocs : Nat → Nat → Bool) : Nat → Routes → Option Routes
  | 0, _ => none
  | fuel + 1, routes =>
      if limit < routes.size then (cull (mallocs fuel) routes).bind (cullWhile limit mallocs fuel) else some routes

/-- `_remoteBridgeRoutes[mac] = addr`. -/
def learn (malloc : Nat → Bool) (routes : Routes) (mac : MAC) (addr : Address) : Routes :=
  routes.index macHashCode malloc mac fun _ => addr

def learnBridgeRoute (malloc : Nat → Bool) (mallocs : Nat → Nat → Bool) (fuel : Nat) (routes : Routes) (mac : MAC)
    (addr : Address) : Option Routes :=
  cullWhile maxBridgeRoutes mallocs fuel (learn malloc routes mac addr)

/-- How many routes a bridge has. -/
def claimed (routes : Routes) (bridge : Address) : Nat := (routes.entries.map Prod.snd).count bridge

/-- What a round is to do: a bridge that has routes, and none has more, loses all of them, and nothing else changes. -/
def Culled (before after : Routes) : Prop :=
  ∃ bridge, 0 < claimed before bridge ∧ (∀ other, claimed before other ≤ claimed before bridge) ∧
    ∀ mac, after.get macHashCode mac = (before.get macHashCode mac).filter (· ≠ bridge)

/-- A round that the loop makes. -/
def Round (limit : Nat) (before after : Routes) : Prop :=
  limit < before.size ∧ (∃ malloc, cull malloc before = some after) ∧ Culled before after

namespace Counting

/-- The table of counts and the maximum are those of a tally. -/
structure Tracks (s : Counting) (t : Tally Address) : Prop where
  counts : ∃ m, Represents hashCode s.counts m ∧ ∀ a, (m a).getD 0 = t.counts a
  maxAddr : s.maxAddr = t.leader
  maxCount : s.maxCount = t.most

theorem tracks_start : Tracks start (Tally.start 0) where
  counts := ⟨fun _ => none, represents_ofCapacity (by decide), fun _ => rfl⟩
  maxAddr := rfl
  maxCount := rfl

theorem Tracks.add {s : Counting} {t : Tally Address} (tracks : Tracks s t) (malloc : Nat → Bool) (a : Address) :
    Tracks (s.add malloc a) (t.add a) := by
  obtain ⟨m, represents, counts⟩ := tracks.counts
  have grown := represents.index malloc a (· + 1)
  have c : ((s.counts.index hashCode malloc a (· + 1)).get hashCode a).getD 0 = t.counts a + 1 := by
    rw [get_eq grown.wf grown.maps, Function.update_self, Option.getD_some, ← counts a]
    rfl
  have after : ∀ b, (Function.update m a (some ((m a).getD default + 1)) b).getD 0 =
      Function.update t.counts a (t.counts a + 1) b := by
    intro b
    by_cases same : b = a
    · rw [same, Function.update_self, Function.update_self, Option.getD_some, ← counts a]
      rfl
    · rw [Function.update_of_ne same, Function.update_of_ne same, counts b]
  unfold Counting.add Tally.add
  simp only [c, tracks.maxCount]
  by_cases ahead : t.most < t.counts a + 1
  · rw [if_pos ahead, if_pos ahead]
    exact ⟨⟨_, grown, after⟩, rfl, rfl⟩
  · rw [if_neg ahead, if_neg ahead]
    exact ⟨⟨_, grown, after⟩, tracks.maxAddr, rfl⟩

theorem Tracks.foldl {s : Counting} {t : Tally Address} (tracks : Tracks s t) (malloc : Nat → Bool)
    (votes : List Address) : Tracks (votes.foldl (Counting.add malloc) s) (votes.foldl Tally.add t) := by
  induction votes generalizing s t with
  | nil => exact tracks
  | cons a votes ih => exact ih (tracks.add malloc a)

end Counting

section Rounds

variable {routes after : Routes} {m : MAC → Option Address}

theorem cull_eq (represents : Represents macHashCode routes m) (malloc : Nat → Bool) :
    ∃ after bridge, cull malloc routes = some after ∧
      Represents macHashCode after (fun mac => (m mac).filter (· ≠ bridge)) ∧
      (∀ other, claimed routes other ≤ claimed routes bridge) ∧ (0 < routes.size → 0 < claimed routes bridge) := by
  obtain ⟨seen, counted, seenRepresents⟩ :=
    pass_begin (fun _ a => some a) represents (Nat.lt_succ_self routes.size)
  let votes := routes.entries.map Prod.snd
  let worst := votes.foldl (Counting.add malloc) Counting.start
  have tally := Tally.counted_foldl (0 : Address) votes
  have tracks := Counting.tracks_start.foldl malloc votes
  obtain ⟨after, killed, afterRepresents⟩ :=
    pass_begin (fun _ a => if a = worst.maxAddr then none else some a) seenRepresents (Nat.lt_succ_self seen.size)
  have most : ∀ other, claimed routes other ≤ claimed routes worst.maxAddr := by
    intro other
    have leads : worst.maxAddr = (votes.foldl Tally.add (Tally.start 0)).leader := tracks.maxAddr
    have bound := tally.bound other
    rw [tally.most, ← leads] at bound
    exact bound
  refine ⟨after, worst.maxAddr, ?_, ?_, most, ?_⟩
  · simp only [cull, counted, ← entries_eq represents.wf, Option.bind_eq_bind, Option.bind_some]
    rw [killed]
    rfl
  · convert afterRepresents using 2 with mac
    cases m mac with
    | none => rfl
    | some a => by_cases same : a = worst.maxAddr <;> simp [same]
  · intro positive
    have some : votes ≠ [] := by
      intro none
      have lengths : votes.length = routes.size := by
        simp only [votes, entries_eq represents.wf, List.length_map]
        exact represents.wf.counted.symm
      rw [none, List.length_nil] at lengths
      omega
    obtain ⟨a, member⟩ := List.exists_mem_of_ne_nil votes some
    exact Nat.lt_of_lt_of_le (List.count_pos_iff.mpr member) (most a)

/-- The keys of a table as a set. -/
theorem card_keys (represents : Represents macHashCode routes m) :
    routes.keys.toFinset.card = routes.size ∧ ∀ mac, mac ∈ routes.keys.toFinset ↔ (m mac).isSome = true := by
  rw [keys_eq represents.wf]
  refine ⟨?_, fun mac => ?_⟩
  · rw [List.toFinset_card_of_nodup represents.wf.keys, List.length_map]
    exact represents.wf.counted.symm
  · rw [List.mem_toFinset, represents.maps.isSome_iff]

/-- The routes of a bridge are the keys that it has. -/
theorem claimed_eq (represents : Represents macHashCode routes m) (bridge : Address) :
    claimed routes bridge = (routes.keys.toFinset.filter fun mac => m mac = some bridge).card := by
  have among : ∀ b ∈ routes.buckets, (m b.k = some bridge ↔ b.v = bridge) := by
    intro b member
    rw [(represents.maps b.k b.v).mpr ⟨b, member, rfl, rfl⟩, Option.some_inj]
  have distinct : ((routes.buckets.map Bucket.k).filter fun mac => m mac = some bridge).Nodup :=
    represents.wf.keys.filter _
  rw [claimed, entries_eq represents.wf, keys_eq represents.wf, List.filter_toFinset,
    List.toFinset_card_of_nodup distinct, ← List.countP_eq_length_filter, List.countP_map, List.map_map,
    List.count, List.countP_map]
  apply List.countP_congr
  intro b member
  simpa using (among b member).symm

/-- A round takes away as many routes as the bridge has. -/
theorem size_of_culled (before : Represents macHashCode routes m) {bridge : Address}
    (represents : Represents macHashCode after fun mac => (m mac).filter (· ≠ bridge)) :
    after.size + claimed routes bridge = routes.size := by
  have old := card_keys before
  have new := card_keys represents
  have left : after.keys.toFinset = routes.keys.toFinset.filter fun mac => ¬ m mac = some bridge := by
    ext mac
    rw [new.2, Finset.mem_filter, old.2, Option.isSome_filter]
    cases m mac with
    | none => simp
    | some a => simp
  rw [← old.1, ← new.1, left, claimed_eq before, Nat.add_comm]
  exact Finset.card_filter_add_card_filter_not _

theorem round_of_cull (wf : WellFormed macHashCode routes) {limit : Nat} (more : limit < routes.size)
    (malloc : Nat → Bool) :
    ∃ after, cull malloc routes = some after ∧ WellFormed macHashCode after ∧ after.size < routes.size ∧
      Round limit routes after := by
  obtain ⟨after, bridge, culled, represents, most, some⟩ := cull_eq wf.represents malloc
  have positive := some (Nat.lt_of_le_of_lt (Nat.zero_le _) more)
  have taken := size_of_culled wf.represents represents
  refine ⟨after, culled, represents.wf, by omega, more, ⟨malloc, culled⟩, bridge, positive, most, ?_⟩
  exact get_eq represents.wf represents.maps

end Rounds

/-- The loop ends with a table of the size allowed, by rounds only. -/
theorem cullWhile_eq (limit : Nat) (mallocs : Nat → Nat → Bool) {fuel : Nat} {routes : Routes}
    (wf : WellFormed macHashCode routes) (enough : routes.size < fuel) :
    ∃ final, cullWhile limit mallocs fuel routes = some final ∧ WellFormed macHashCode final ∧ final.size ≤ limit ∧
      Relation.ReflTransGen (Round limit) routes final ∧ (routes.size ≤ limit → final = routes) := by
  induction fuel generalizing routes with
  | zero => exact absurd enough (Nat.not_lt_zero _)
  | succ fuel ih =>
      by_cases more : limit < routes.size
      · obtain ⟨after, culled, afterWf, fewer, round⟩ := round_of_cull wf more (mallocs fuel)
        obtain ⟨final, run, finalWf, small, rounds, -⟩ := ih afterWf (by omega)
        refine ⟨final, ?_, finalWf, small, .head round rounds, fun fits => by omega⟩
        rw [cullWhile, if_pos more, culled, Option.bind_some, run]
      · exact ⟨routes, if_neg more, wf, Nat.le_of_not_lt more, .refl, fun _ => rfl⟩

/-- When one bridge has more routes than any other, and few enough are behind the others, its routes are what is lost. -/
theorem get_final {limit : Nat} {routes final : Routes} (wf : WellFormed macHashCode routes) {bridge : Address}
    (rounds : Relation.ReflTransGen (Round limit) routes final) (more : limit < routes.size)
    (small : final.size ≤ limit) (leads : ∀ other, other ≠ bridge → claimed routes other < claimed routes bridge)
    (fits : routes.size ≤ limit + claimed routes bridge) (mac : MAC) :
    final.get macHashCode mac = (routes.get macHashCode mac).filter (· ≠ bridge) := by
  rcases rounds.cases_head with unchanged | ⟨middle, ⟨-, ⟨malloc, culled⟩, -⟩, rest⟩
  · rw [← unchanged] at small
    exact absurd more (Nat.not_lt_of_le small)
  obtain ⟨after, worst, result, represents, most, -⟩ := cull_eq wf.represents malloc
  obtain rfl : after = middle := Option.some.inj (result.symm.trans culled)
  have same : worst = bridge := by
    by_contra other
    exact absurd (most bridge) (Nat.not_le_of_lt (leads worst other))
  rw [same] at represents
  have taken := size_of_culled wf.represents represents
  rcases rest.cases_head with done | ⟨next, ⟨still, -⟩, -⟩
  · rw [← done]
    exact get_eq represents.wf represents.maps mac
  · omega

theorem represents_learn {routes : Routes} (wf : WellFormed macHashCode routes) (malloc : Nat → Bool) (mac : MAC)
    (addr : Address) :
    Represents macHashCode (learn malloc routes mac addr)
      (Function.update (routes.get macHashCode) mac (some addr)) :=
  wf.represents.index malloc mac fun _ => addr

theorem size_learn_le {routes : Routes} (wf : WellFormed macHashCode routes) (malloc : Nat → Bool) (mac : MAC)
    (addr : Address) : (learn malloc routes mac addr).size ≤ routes.size + 1 := by
  have old := card_keys wf.represents
  have new := card_keys (represents_learn wf malloc mac addr)
  rw [← old.1, ← new.1]
  refine (Finset.card_le_card fun k there => ?_).trans (Finset.card_insert_le mac _)
  rw [new.2] at there
  rw [Finset.mem_insert, old.2]
  by_cases same : k = mac
  · exact .inl same
  · rw [Function.update_of_ne same] at there
    exact .inr there

theorem learnBridgeRoute_culls {routes : Routes} (wf : WellFormed macHashCode routes) (malloc : Nat → Bool)
    (mallocs : Nat → Nat → Bool) (mac : MAC) (addr : Address) {fuel : Nat} (enough : routes.size + 1 < fuel) :
    ∃ final, learnBridgeRoute malloc mallocs fuel routes mac addr = some final ∧
      WellFormed macHashCode final ∧ final.size ≤ maxBridgeRoutes ∧
      (learn malloc routes mac addr).get macHashCode =
        Function.update (routes.get macHashCode) mac (some addr) ∧
      Relation.ReflTransGen (Round maxBridgeRoutes) (learn malloc routes mac addr) final ∧
      ((learn malloc routes mac addr).size ≤ maxBridgeRoutes → final = learn malloc routes mac addr) := by
  have represents := represents_learn wf malloc mac addr
  have size := size_learn_le wf malloc mac addr
  obtain ⟨final, run, finalWf, small, rounds, untouched⟩ :=
    cullWhile_eq maxBridgeRoutes mallocs represents.wf (Nat.lt_of_le_of_lt size enough)
  refine ⟨final, run, finalWf, small, ?_, rounds, untouched⟩
  funext k
  exact get_eq represents.wf represents.maps k

section Crowded

/-- The bridge of the MAC `n`: all but the first are behind 0x1122334455. -/
def bridgeOf (n : Nat) : Address := if n = 0 then 0x66778899aa else 0x1122334455

/-- The routes of the MACs below `n`. -/
def crowded : Nat → Routes
  | 0 => ofCapacity 64
  | n + 1 => learn (fun _ => true) (crowded n) (BitVec.ofNat 48 n) (bridgeOf n)

theorem toNat_ofNat {n : Nat} (small : n < 2 ^ 48) : (BitVec.ofNat 48 n).toNat = n := by
  rw [BitVec.toNat_ofNat, Nat.mod_eq_of_lt small]

theorem represents_crowded {n : Nat} (small : n ≤ 2 ^ 48) :
    Represents macHashCode (crowded n) fun mac => if mac.toNat < n then some (bridgeOf mac.toNat) else none := by
  induction n with
  | zero =>
      have none : (fun mac : MAC => if mac.toNat < 0 then some (bridgeOf mac.toNat) else none) = fun _ => none := by
        funext mac
        exact if_neg (Nat.not_lt_zero _)
      rw [none]
      exact represents_ofCapacity (by decide)
  | succ n ih =>
      have here := ih (by omega)
      have next : (fun mac : MAC => if mac.toNat < n + 1 then some (bridgeOf mac.toNat) else none) =
          Function.update ((crowded n).get macHashCode) (BitVec.ofNat 48 n) (some (bridgeOf n)) := by
        funext mac
        by_cases same : mac = BitVec.ofNat 48 n
        · rw [same, Function.update_self, toNat_ofNat (by omega), if_pos (Nat.lt_succ_self n)]
        · have other : mac.toNat ≠ n := by
            intro equal
            exact same (BitVec.eq_of_toNat_eq (equal.trans (toNat_ofNat (by omega)).symm))
          rw [Function.update_of_ne same, get_eq here.wf here.maps]
          by_cases below : mac.toNat < n
          · rw [if_pos below, if_pos (by omega)]
          · rw [if_neg below, if_neg (by omega)]
      rw [next]
      exact represents_learn here.wf (fun _ => true) (BitVec.ofNat 48 n) (bridgeOf n)

theorem mem_keys_crowded {n : Nat} (small : n ≤ 2 ^ 48) (mac : MAC) :
    mac ∈ (crowded n).keys.toFinset ↔ mac.toNat < n := by
  rw [(card_keys (represents_crowded small)).2]
  by_cases below : mac.toNat < n
  · simp [below]
  · simp [below]

theorem size_crowded {n : Nat} (small : n ≤ 2 ^ 48) : (crowded n).size = n := by
  have numbers : (crowded n).keys.toFinset.image BitVec.toNat = Finset.range n := by
    ext k
    rw [Finset.mem_image, Finset.mem_range]
    constructor
    · rintro ⟨mac, there, rfl⟩
      exact (mem_keys_crowded small mac).mp there
    · intro below
      have self : (BitVec.ofNat 48 k).toNat = k := toNat_ofNat (by omega)
      exact ⟨BitVec.ofNat 48 k, (mem_keys_crowded small _).mpr (by rwa [self]), self⟩
  have card := Finset.card_image_of_injective (crowded n).keys.toFinset
    fun _ _ (same : BitVec.toNat _ = BitVec.toNat _) => BitVec.eq_of_toNat_eq same
  rw [numbers, Finset.card_range, (card_keys (represents_crowded small)).1] at card
  exact card.symm

/-- Only the first MAC is behind another bridge. -/
theorem claimed_crowded {n : Nat} (small : n ≤ 2 ^ 48) :
    n ≤ claimed (crowded n) 0x1122334455 + 1 ∧ ∀ other, other ≠ 0x1122334455 → claimed (crowded n) other ≤ 1 := by
  have represents := represents_crowded small
  have first {mac : MAC} {a : Address} (routed : (if mac.toNat < n then some (bridgeOf mac.toNat) else none) = some a)
      (other : a ≠ 0x1122334455) : mac = 0 := by
    split at routed
    · by_cases zero : mac.toNat = 0
      · exact BitVec.eq_of_toNat_eq zero
      · rw [bridgeOf, if_neg zero] at routed
        exact absurd (Option.some.inj routed).symm other
    · cases routed
  constructor
  · have parts := Finset.card_filter_add_card_filter_not (s := (crowded n).keys.toFinset)
      fun mac => (if mac.toNat < n then some (bridgeOf mac.toNat) else none) = some 0x1122334455
    rw [← claimed_eq represents, (card_keys represents).1, size_crowded small] at parts
    have rest : ((crowded n).keys.toFinset.filter fun mac =>
        ¬ (if mac.toNat < n then some (bridgeOf mac.toNat) else none) = some 0x1122334455) ⊆ {0} := by
      intro mac there
      rw [Finset.mem_filter, mem_keys_crowded small] at there
      rw [Finset.mem_singleton]
      refine first (if_pos there.1) fun same => there.2 ?_
      rw [if_pos there.1, same]
    have few := Finset.card_le_card rest
    rw [Finset.card_singleton] at few
    omega
  · intro other different
    rw [claimed_eq represents, ← Finset.card_singleton (0 : MAC)]
    apply Finset.card_le_card
    intro mac there
    rw [Finset.mem_filter] at there
    exact Finset.mem_singleton.mpr (first there.2 different)

/-- The routes of a full table are those of two bridges: the next one is lost at once, with all others of its bridge. -/
theorem fullest_bridge_culled : ∃ final,
    learnBridgeRoute (fun _ => true) (fun _ _ => true) (maxBridgeRoutes + 2) (crowded maxBridgeRoutes)
      (BitVec.ofNat 48 maxBridgeRoutes) 0x1122334455 = some final ∧
    final.get macHashCode 0 = some 0x66778899aa ∧
    final.get macHashCode (BitVec.ofNat 48 maxBridgeRoutes) = none := by
  have small : maxBridgeRoutes + 1 ≤ 2 ^ 48 := by decide
  have wf := (represents_crowded (Nat.le_of_succ_le small)).wf
  have enough : (crowded maxBridgeRoutes).size + 1 < maxBridgeRoutes + 2 := by
    rw [size_crowded (Nat.le_of_succ_le small)]
    omega
  have next : learn (fun _ => true) (crowded maxBridgeRoutes) (BitVec.ofNat 48 maxBridgeRoutes) 0x1122334455 =
      crowded (maxBridgeRoutes + 1) := by
    rw [crowded, bridgeOf, if_neg (by decide)]
  obtain ⟨final, run, -, fits, -, rounds, -⟩ := learnBridgeRoute_culls wf (fun _ => true) (fun _ _ => true)
    (BitVec.ofNat 48 maxBridgeRoutes) 0x1122334455 enough
  rw [next] at rounds
  have represents := represents_crowded small
  obtain ⟨many, few⟩ := claimed_crowded small
  have size := size_crowded small
  have two : 2 < maxBridgeRoutes := by decide
  have left := get_final represents.wf rounds (by omega) fits
    (fun other different => by have one := few other different; omega) (by omega)
  refine ⟨final, run, ?_, ?_⟩
  · rw [left, get_eq represents.wf represents.maps]
    decide
  · rw [left, get_eq represents.wf represents.maps, toNat_ofNat (by decide), if_pos (Nat.lt_succ_self _), bridgeOf,
      if_neg (by decide)]
    decide

end Crowded

end ZeroTierNode.BridgeRoutes
