import Mathlib.Data.Finset.Card
import ZeroTierNode.Library.Arrays
import ZeroTierNode.Library.OrderedSets
import ZeroTierNode.Library.Runs
import ZeroTierNode.MulticastAnnouncements

/-!
The multicast groups that a network's device is subscribed to, and their export to the
application. The loops over addresses and routes go through the arrays of the exported
structure; the loop over the subscriptions goes through the vector.
-/

namespace ZeroTierNode.Subscriptions
open Library.Accesses Library.Arrays Library.OrderedSets Library.Runs
open MulticastAnnouncements (groupBefore_false place place_injective)
open MulticastGather (groupBefore)
open MulticastLikes (MulticastGroup)

/-- `ZT_MAX_ZT_ASSIGNED_ADDRESSES`. -/
abbrev maxAssignedAddresses : Nat := 32

/-- `ZT_MAX_NETWORK_ROUTES`. -/
abbrev maxNetworkRoutes : Nat := 128

/-- `ZT_MAX_MULTICAST_SUBSCRIPTIONS`. -/
abbrev maxMulticastSubscriptions : Nat := 1024

section Vector

/-- `Network::multicastSubscribe` on `_myMulticastGroups`. -/
def multicastSubscribe (myMulticastGroups : List MulticastGroup) (mg : MulticastGroup) : List MulticastGroup :=
  insert groupBefore myMulticastGroups mg

/-- `Network::multicastUnsubscribe`. -/
def multicastUnsubscribe (myMulticastGroups : List MulticastGroup) (mg : MulticastGroup) : List MulticastGroup :=
  erase groupBefore myMulticastGroups mg

inductive Call where
  | subscribe (mg : MulticastGroup)
  | unsubscribe (mg : MulticastGroup)
deriving DecidableEq, Repr

def step (myMulticastGroups : List MulticastGroup) : Call → List MulticastGroup
  | .subscribe mg => multicastSubscribe myMulticastGroups mg
  | .unsubscribe mg => multicastUnsubscribe myMulticastGroups mg

/-- `_myMulticastGroups` after these calls. -/
def groupsAfter (calls : List Call) : List MulticastGroup := run step [] calls

end Vector

section Export

/-- The arrays of `ZT_VirtualNetworkConfig`, with their counts. -/
structure ExternalConfig where
  assignedAddressCount : Nat
  assignedAddresses : Vector InetAddress maxAssignedAddresses
  routeCount : Nat
  routes : Vector Route maxNetworkRoutes
  multicastSubscriptionCount : BitVec 32
  multicastSubscriptions : Vector (BitVec 64 × BitVec 32) maxMulticastSubscriptions

/-- A loop over a whole array: what is there is copied, and the rest is cleared. -/
def copied {α : Type} (blank : α) (n : Nat) (items : List α) : Vector α n := Vector.ofFn fun i => items.getD i blank

/-- The arrays as `Network::_externalConfig` writes them over what was there. -/
def externalConfig (config : NetworkConfig) (myMulticastGroups : List MulticastGroup) (ec : ExternalConfig) :
    Access ExternalConfig := do
  let multicastSubscriptions ← copyTo ec.multicastSubscriptions 0
    (myMulticastGroups.map fun mg => (mg.mac.setWidth 64, mg.adi))
  return {
    assignedAddressCount := min maxAssignedAddresses config.staticIps.length
    assignedAddresses := copied .nil maxAssignedAddresses config.staticIps
    routeCount := min maxNetworkRoutes config.routes.length
    routes := copied ⟨.nil, .nil, 0, 0⟩ maxNetworkRoutes config.routes
    multicastSubscriptionCount := BitVec.ofNat 32 myMulticastGroups.length
    multicastSubscriptions := multicastSubscriptions }

/-- The export writes within the array of subscriptions, and counts no more than it has room for. -/
def Exports (myMulticastGroups : List MulticastGroup) : Prop :=
  ∀ (config : NetworkConfig) (ec : ExternalConfig), ∃ after,
    externalConfig config myMulticastGroups ec = .ok after ∧
    after.multicastSubscriptionCount.toNat ≤ maxMulticastSubscriptions

theorem exports_iff (myMulticastGroups : List MulticastGroup) :
    Exports myMulticastGroups ↔ myMulticastGroups.length ≤ maxMulticastSubscriptions := by
  constructor
  · intro exports
    by_contra more
    let ec : ExternalConfig :=
      ⟨0, copied .nil _ [], 0, copied ⟨.nil, .nil, 0, 0⟩ _ [], 0, copied (0, 0) _ []⟩
    obtain ⟨after, written, -⟩ := exports .nil ec
    rw [externalConfig, copyTo_outside (Nat.zero_le _) (by rw [List.length_map]; omega)] at written
    cases written
  · intro fits config ec
    obtain ⟨subscriptions, written, -⟩ := @copyTo_inside _ _ ec.multicastSubscriptions 0
      (myMulticastGroups.map fun mg => (mg.mac.setWidth 64, mg.adi)) (by rw [List.length_map]; omega)
    rw [externalConfig, written]
    refine ⟨_, rfl, ?_⟩
    have small : maxMulticastSubscriptions < 2 ^ 32 := by decide
    have count : (BitVec.ofNat 32 myMulticastGroups.length).toNat = myMulticastGroups.length :=
      Nat.mod_eq_of_lt (by omega)
    exact count.trans_le fits

end Export

/-- The group was subscribed, and not unsubscribed since. -/
def Subscribed (calls : List Call) (mg : MulticastGroup) : Prop :=
  ∃ before after, calls = before ++ .subscribe mg :: after ∧ Call.unsubscribe mg ∉ after

/-- The groups that are subscribed, as a set. -/
def wanted (calls : List Call) : Finset MulticastGroup :=
  calls.foldl (fun groups call =>
    match call with
    | .subscribe mg => Insert.insert mg groups
    | .unsubscribe mg => groups.erase mg) ∅

section Wanted

theorem subscribed_nil (mg : MulticastGroup) : ¬Subscribed [] mg := by
  intro ⟨before, after, whole, _⟩
  exact absurd whole.symm (by simp)

/-- The last call decides about its group. -/
theorem subscribed_append (calls : List Call) (call : Call) (mg : MulticastGroup) :
    Subscribed (calls ++ [call]) mg ↔ call = .subscribe mg ∨ call ≠ .unsubscribe mg ∧ Subscribed calls mg := by
  constructor
  · intro ⟨before, after, whole, kept⟩
    induction after using List.reverseRecOn with
    | nil =>
      have last := (List.append_inj' whole rfl).2
      exact .inl (List.cons.inj last).1
    | append_singleton after last ih =>
      rw [← List.cons_append, ← List.append_assoc] at whole
      have parts := List.append_inj' whole rfl
      rw [List.mem_append, not_or, List.mem_singleton] at kept
      have same : call = last := (List.cons.inj parts.2).1
      exact .inr ⟨fun wrong => kept.2 (wrong ▸ same), before, after, parts.1, kept.1⟩
  · intro either
    cases either with
    | inl here => exact ⟨calls, [], by rw [here], by simp⟩
    | inr earlier =>
      obtain ⟨other, before, after, whole, kept⟩ := earlier
      refine ⟨before, after ++ [call], by rw [whole, List.append_assoc, List.cons_append], ?_⟩
      rw [List.mem_append, not_or, List.mem_singleton]
      exact ⟨kept, fun same => other same.symm⟩

theorem mem_wanted (calls : List Call) (mg : MulticastGroup) : mg ∈ wanted calls ↔ Subscribed calls mg := by
  induction calls using List.reverseRecOn with
  | nil => exact iff_of_false (Finset.notMem_empty mg) (subscribed_nil mg)
  | append_singleton calls call ih =>
    rw [subscribed_append, ← ih]
    unfold wanted
    rw [List.foldl_append]
    cases call with
    | subscribe other =>
      simp only [List.foldl_cons, List.foldl_nil, Finset.mem_insert, Call.subscribe.injEq, ne_eq, reduceCtorEq,
        not_false_eq_true, true_and, eq_comm]
    | unsubscribe other =>
      simp only [List.foldl_cons, List.foldl_nil, Finset.mem_erase, Call.unsubscribe.injEq, ne_eq, reduceCtorEq,
        false_or, eq_comm]

end Wanted

theorem compares_groupBefore : Compares groupBefore where
  irrefl := fun mg => (groupBefore_false mg mg).mpr (Nat.le_refl _)
  trans := by
    intro first second third less more
    by_contra not
    have last := (groupBefore_false third first).mp (by simpa using not)
    have one : ¬place second ≤ place first := by rw [← groupBefore_false, less]; decide
    have two : ¬place third ≤ place second := by rw [← groupBefore_false, more]; decide
    omega
  total := by
    intro first second below above
    rw [groupBefore_false] at below above
    exact place_injective (Nat.le_antisymm above below)

/-- The vector is in strict order and holds just the groups that are subscribed. -/
theorem groupsAfter_spec (calls : List Call) :
    Ordered groupBefore (groupsAfter calls) ∧ ∀ mg, mg ∈ groupsAfter calls ↔ Subscribed calls mg := by
  induction calls using List.reverseRecOn with
  | nil => exact ⟨List.Pairwise.nil, fun mg => iff_of_false List.not_mem_nil (subscribed_nil mg)⟩
  | append_singleton calls call ih =>
    obtain ⟨ordered, members⟩ := ih
    have next : groupsAfter (calls ++ [call]) = step (groupsAfter calls) call := by
      rw [groupsAfter, groupsAfter, run, run, List.foldl_append]
      rfl
    rw [next]
    cases call with
    | subscribe other =>
      obtain ⟨orderedNext, membersNext⟩ := insert_spec compares_groupBefore ordered other
      refine ⟨orderedNext, ?_⟩
      intro mg
      rw [subscribed_append, ← members mg]
      exact (membersNext mg).trans (by simp [eq_comm])
    | unsubscribe other =>
      obtain ⟨orderedNext, membersNext⟩ := erase_spec compares_groupBefore ordered other
      refine ⟨orderedNext, ?_⟩
      intro mg
      rw [subscribed_append, ← members mg]
      exact (membersNext mg).trans (by simp [eq_comm])

theorem length_groupsAfter (calls : List Call) : (groupsAfter calls).length = (wanted calls).card := by
  obtain ⟨ordered, members⟩ := groupsAfter_spec calls
  have same : (groupsAfter calls).toFinset = wanted calls := by
    ext mg
    rw [List.mem_toFinset, members, mem_wanted]
  rw [← same, List.toFinset_card_of_nodup (ordered.nodup compares_groupBefore)]

/-- What is to hold of the vector after some calls. -/
structure Lawful (calls : List Call) : Prop where
  ordered : Ordered groupBefore (groupsAfter calls)
  members : ∀ mg, mg ∈ groupsAfter calls ↔ Subscribed calls mg
  exports : Exports (groupsAfter calls)

/-- The vector is what it is to be after all calls; it can be exported in every state of a run exactly if there are
never more groups than the array has room for. -/
theorem subscriptions_iff (calls : List Call) :
    (∀ made, made <+: calls → Ordered groupBefore (groupsAfter made) ∧
      ∀ mg, mg ∈ groupsAfter made ↔ Subscribed made mg) ∧
    ((∀ made, made <+: calls → Lawful made) ↔
      ∀ made, made <+: calls → (wanted made).card ≤ maxMulticastSubscriptions) := by
  refine ⟨fun made _ => groupsAfter_spec made, ?_⟩
  constructor
  · intro lawful made prior
    rw [← length_groupsAfter]
    exact (exports_iff _).mp (lawful made prior).exports
  · intro room made prior
    obtain ⟨ordered, members⟩ := groupsAfter_spec made
    refine ⟨ordered, members, (exports_iff _).mpr ?_⟩
    rw [length_groupsAfter]
    exact room made prior

section Crowd

theorem wanted_subscribes (groups : List MulticastGroup) : wanted (groups.map .subscribe) = groups.toFinset := by
  ext mg
  rw [mem_wanted, List.mem_toFinset]
  constructor
  · intro ⟨before, after, whole, _⟩
    have found : Call.subscribe mg ∈ groups.map .subscribe := whole ▸ by simp
    simpa using found
  · intro found
    obtain ⟨before, after, whole⟩ := List.append_of_mem found
    exact ⟨before.map .subscribe, after.map .subscribe, by simp [whole], by simp⟩

/-- The groups for address resolution of 1025 IPv4 addresses. -/
def crowd : List MulticastGroup := (List.range 1025).map fun n => ⟨0xffffffffffff, BitVec.ofNat 32 (0x0a000000 + n)⟩

/-- With one group more than the array has room for, the export leaves the array. -/
theorem crowd_not_exported : ¬Exports (groupsAfter (crowd.map .subscribe)) := by
  rw [exports_iff, length_groupsAfter, wanted_subscribes]
  have distinct : crowd.Nodup := by
    apply List.Nodup.map_on _ List.nodup_range
    intro first below second under same
    rw [List.mem_range] at below under
    have adi := congrArg (fun mg : MulticastGroup => mg.adi.toNat) same
    simp only [BitVec.toNat_ofNat] at adi
    omega
  rw [List.toFinset_card_of_nodup distinct, crowd, List.length_map, List.length_range]
  decide

end Crowd

end ZeroTierNode.Subscriptions
