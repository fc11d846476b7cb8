import ZeroTierNode.Network
import ZeroTierNode.RevocationThresholds

/-!
Revoked members and the network gate. The threshold of an accepted COM revocation
lives in the member's entry, so it binds for as long as housekeeping keeps the
entry and no other revocation overwrites the threshold.
-/

namespace ZeroTierNode.NetworkGate
open Library.Bytes Library.Runs RevocationThresholds
open ZeroTierNode.Membership (credentialKey)

/-- The calls on a `Network` that touch its memberships or its configuration. -/
inductive Operation
  | addCom (RR : RuntimeEnvironment) (com : CertificateOfMembership)
  | addTag (RR : RuntimeEnvironment) (tag : Tag)
  | addCapability (RR : RuntimeEnvironment) (cap : Capability)
  | addCoo (RR : RuntimeEnvironment) (coo : CertificateOfOwnership)
  | addRevocation (RR : RuntimeEnvironment) (rev : Revocation)
  | clean (RR : RuntimeEnvironment)
  | gate (peer : Identity) (now : Int)
  | setConfiguration (RR : RuntimeEnvironment) (nconf : NetworkConfig) (now : Int)

def step (crypto : Crypto) (net : Network) : Operation → Network
  | .addCom RR com => (net.addCom crypto RR com).2
  | .addTag RR tag => (net.addTag crypto RR tag).2
  | .addCapability RR cap => (net.addCapability crypto RR cap).2
  | .addCoo RR coo => (net.addCoo crypto RR coo).2
  | .addRevocation RR rev => (net.addRevocation crypto RR rev).2
  | .clean RR => net.clean RR
  | .gate peer now => (net.gate crypto peer now).2
  | .setConfiguration RR nconf now => (net.setConfiguration RR nconf now).2

/-- `clean` finds the member's peer, and no verified revocation of another credential of the member
raises that credential's threshold to a value below `threshold`. -/
def KeepsMember (crypto : Crypto) (member : Address) (threshold : Int) (net : Network) : Operation → Prop
  | .clean RR => net.destroyed = true ∨ (RR.getPeerNoCache member).isSome = true
  | .addRevocation RR rev =>
      rev.networkId = net.id → rev.target = member → rev.verify crypto RR = .ok →
        Keyed rev.credentialType →
        ((net.memberships.lookup member).getD .nil).revocationAt
          (credentialKey rev.credentialType rev.credentialId) < rev.threshold.toInt →
        threshold ≤ rev.threshold.toInt
  | _ => True

/-- Whenever the gate lets the member onto a network that is not public, the certificate it holds of
the member is newer than the threshold. -/
def AdmitsOnlyNewer (crypto : Crypto) (member : Address) (threshold : Int) (net : Network) : Prop :=
  ∀ peer now, peer.address = member → net.config.isPublic = false →
    (net.gate crypto peer now).1 = true →
    ∃ m, net.memberships.lookup member = some m ∧ threshold < m.com.timestamp.toInt

/-- The member has an entry whose COM threshold is at least `threshold`. -/
def Bound (member : Address) (threshold : Int) (memberships : Memberships) : Prop :=
  ∃ m, memberships.lookup member = some m ∧ threshold ≤ m.comRevocationThreshold

theorem gate_admits (crypto : Crypto) (net : Network) (peer : Identity) (now : Int) :
    (net.gate crypto peer now).1 =
      (net.config.isSet && (net.config.isPublic ||
        (net.memberships.lookup peer.address).any
          (fun m => m.isAllowedOnNetwork crypto net.config peer))) := by
  unfold Network.gate
  cases net.config.isSet with
  | false => rfl
  | true =>
      simp only [if_true, Bool.true_and]
      split
      · rename_i admitted
        rw [admitted]
      · rename_i refused
        rw [Bool.not_eq_true] at refused
        rw [refused]

theorem admits_of_bound (crypto : Crypto) {member : Address} {threshold : Int} {net : Network}
    (bound : Bound member threshold net.memberships) : AdmitsOnlyNewer crypto member threshold net := by
  intro peer now sameMember notPublic admitted
  obtain ⟨m, entry, high⟩ := bound
  refine ⟨m, entry, ?_⟩
  subst sameMember
  rw [gate_admits, entry, notPublic] at admitted
  simp only [Option.any_some, Membership.isAllowedOnNetwork, notPublic, Bool.false_or,
    Bool.and_eq_true, decide_eq_true_eq] at admitted
  omega

theorem withMembership_lookup (net : Network) (a : Address)
    (add : Membership → AddCredentialResult × Membership) :
    (net.withMembership a add).2.memberships.lookup a =
      some (add ((net.memberships.lookup a).getD .nil)).2 := AList.lookup_insert _

section Levels

/-- The member has an entry in which a value read off its thresholds is at least `threshold`. -/
def AtLeast (level : Membership → Int) (member : Address) (threshold : Int) (memberships : Memberships) : Prop :=
  ∃ m, memberships.lookup member = some m ∧ threshold ≤ level m

/-- The value depends on the stores that only revocations write. -/
def OfThresholds (level : Membership → Int) : Prop :=
  ∀ m n : Membership, m.comRevocationThreshold = n.comRevocationThreshold → m.revocations = n.revocations →
    level m = level n

theorem ofThresholds_com : OfThresholds Membership.comRevocationThreshold := fun _ _ same _ => same

variable {level : Membership → Int} {member a : Address} {threshold : Int} {net : Network}

/-- Writing an entry keeps the bound when the entry written for the member keeps it. -/
theorem atLeast_insert {memberships : Memberships} {m : Membership}
    (bound : AtLeast level member threshold memberships) (own : a = member → threshold ≤ level m) :
    AtLeast level member threshold (memberships.insert a m) := by
  by_cases same : a = member
  · subst same
    exact ⟨m, AList.lookup_insert _, own rfl⟩
  · obtain ⟨old, entry, high⟩ := bound
    refine ⟨old, ?_, high⟩
    rw [AList.lookup_insert_ne (Ne.symm same)]
    exact entry

/-- Adding to a membership keeps the bound when the call keeps the member's own value. -/
theorem atLeast_withMembership {add : Membership → AddCredentialResult × Membership}
    (bound : AtLeast level member threshold net.memberships)
    (own : a = member → ∀ m, net.memberships.lookup member = some m →
      threshold ≤ level m → threshold ≤ level (add m).2) :
    AtLeast level member threshold (net.withMembership a add).2.memberships := by
  refine atLeast_insert bound ?_
  intro same
  obtain ⟨m, entry, high⟩ := bound
  subst same
  rw [entry]
  exact own rfl m entry high

/-- Housekeeping that finds the member's peer keeps the bound. -/
theorem clean_atLeast (thresholds : OfThresholds level) {RR : RuntimeEnvironment}
    (bound : AtLeast level member threshold net.memberships)
    (found : net.destroyed = true ∨ (RR.getPeerNoCache member).isSome = true) :
    AtLeast level member threshold (net.clean RR).memberships := by
  unfold Network.clean
  split
  · exact bound
  · rename_i alive
    have known : (RR.getPeerNoCache member).isSome = true := found.resolve_left alive
    obtain ⟨m, entry, high⟩ := bound
    -- the loop runs over the entries as they were, so the member's own entry is `m`
    refine List.foldlRecOn (motive := AtLeast level member threshold) _ _ ⟨m, entry, high⟩ ?_
    intro kept bound entry' listed
    unfold Network.cleanEntry
    split
    · refine atLeast_insert bound ?_
      intro same
      have own : entry'.2 = m := by
        obtain ⟨address, held⟩ := entry'
        dsimp only at same
        subst same
        have lookup : net.memberships.lookup address = some held := AList.mem_lookup_iff.mpr listed
        rw [lookup] at entry
        exact Option.some.inj entry
      rw [own, thresholds (m.clean net.config) m rfl rfl]
      exact high
    · rename_i gone
      have other : member ≠ entry'.1 := by
        intro same
        rw [← same, known] at gone
        exact gone rfl
      obtain ⟨old, oldEntry, oldHigh⟩ := bound
      exact ⟨old, by rw [AList.lookup_erase_ne other]; exact oldEntry, oldHigh⟩

theorem multicastLikeGate_thresholds (m : Membership) (now : Int) :
    (m.multicastLikeGate now).2.comRevocationThreshold = m.comRevocationThreshold ∧
      (m.multicastLikeGate now).2.revocations = m.revocations := by
  unfold Membership.multicastLikeGate
  split <;> exact ⟨rfl, rfl⟩

/-- Only housekeeping and revocations of the member's own credentials can lower a value. -/
theorem step_atLeast (thresholds : OfThresholds level) (crypto : Crypto) (operation : Operation)
    (bound : AtLeast level member threshold net.memberships)
    (cleans : ∀ RR, operation = .clean RR → net.destroyed = true ∨ (RR.getPeerNoCache member).isSome = true)
    (revokes : ∀ RR rev, operation = .addRevocation RR rev → rev.networkId = net.id → rev.target = member →
      ∀ m, net.memberships.lookup member = some m → threshold ≤ level m →
        threshold ≤ level (m.addRevocation crypto RR rev).2) :
    AtLeast level member threshold (step crypto net operation).memberships := by
  cases operation with
  | addCom RR com =>
      simp only [step, Network.addCom]
      split
      · exact bound
      · refine atLeast_withMembership bound (fun _ m _ high => ?_)
        have same := @addCom_thresholds crypto RR m com
        rw [thresholds _ m same.1 same.2]
        exact high
  | addTag RR tag =>
      simp only [step, Network.addTag]
      split
      · exact bound
      · refine atLeast_withMembership bound (fun _ m _ high => ?_)
        rw [thresholds (m.addTag crypto RR tag).2 m rfl rfl]
        exact high
  | addCapability RR cap =>
      simp only [step, Network.addCapability]
      split
      · exact bound
      · refine atLeast_withMembership bound (fun _ m _ high => ?_)
        rw [thresholds (m.addCapability crypto RR cap).2 m rfl rfl]
        exact high
  | addCoo RR coo =>
      simp only [step, Network.addCoo]
      split
      · exact bound
      · refine atLeast_withMembership bound (fun _ m _ high => ?_)
        rw [thresholds (m.addCoo crypto RR coo).2 m rfl rfl]
        exact high
  | addRevocation RR rev =>
      simp only [step, Network.addRevocation]
      split
      · exact bound
      · rename_i sameNetwork
        exact atLeast_withMembership bound (revokes RR rev rfl (not_not.mp sameNetwork))
  | clean RR => exact clean_atLeast thresholds bound (cleans RR rfl)
  | gate peer now =>
      simp only [step, Network.gate]
      split
      · split
        · refine atLeast_insert bound ?_
          intro same
          obtain ⟨m, entry, high⟩ := bound
          subst same
          rw [entry, Option.getD_some]
          have kept := multicastLikeGate_thresholds m now
          rw [thresholds _ m kept.1 kept.2]
          exact high
        · exact bound
      · exact bound
  | setConfiguration RR nconf now =>
      simp only [step, Network.setConfiguration]
      split_ifs <;> exact bound

end Levels

theorem addCredentialRevocation_bound {m : Membership} {key : BitVec 64} {threshold value : Int}
    (high : threshold ≤ m.comRevocationThreshold)
    (raises : m.revocationAt key < value → threshold ≤ value) :
    threshold ≤ (m.addCredentialRevocation key value).2.comRevocationThreshold := by
  rw [(addCredentialRevocation_stores m key value).1]
  split
  · rename_i raised
    exact raises raised
  · exact high

/-- A revocation of the member's credentials keeps the member's COM threshold up. -/
theorem addRevocation_bound {crypto : Crypto} {RR : RuntimeEnvironment} {m : Membership}
    {rev : Revocation} {threshold : Int} (high : threshold ≤ m.comRevocationThreshold)
    (keeps : rev.verify crypto RR = .ok → Keyed rev.credentialType →
      m.revocationAt (credentialKey rev.credentialType rev.credentialId) < rev.threshold.toInt →
      threshold ≤ rev.threshold.toInt) :
    threshold ≤ (m.addRevocation crypto RR rev).2.comRevocationThreshold := by
  rcases @addRevocation_cases crypto RR m rev with
    ⟨-, -, same⟩ | ⟨-, -, raised⟩ | ⟨verified, keyed, -, effect⟩
  · rw [same]
    exact high
  · rw [raised]
    exact le_trans high (le_max_right _ _)
  · rw [effect]
    exact addCredentialRevocation_bound high (keeps verified keyed)

/-- Every operation that meets the condition keeps the bound. -/
theorem step_bound (crypto : Crypto) (member : Address) (threshold : Int) (net : Network)
    (operation : Operation) (bound : Bound member threshold net.memberships)
    (keeps : KeepsMember crypto member threshold net operation) :
    Bound member threshold (step crypto net operation).memberships := by
  apply step_atLeast ofThresholds_com crypto operation bound
  · intro RR clean
    rw [clean] at keeps
    exact keeps
  · intro RR rev revocation sameNetwork same m entry high
    rw [revocation] at keeps
    have here := keeps sameNetwork same
    rw [entry] at here
    exact addRevocation_bound high here

/-- An accepted COM revocation sets the bound, whatever the network held before. -/
theorem addRevocation_accepted_bound {crypto : Crypto} {RR : RuntimeEnvironment} {net : Network}
    {rev : Revocation} (type : rev.credentialType = .com)
    (accepted : (net.addRevocation crypto RR rev).1.accepted = true) :
    Bound rev.target rev.threshold.toInt (net.addRevocation crypto RR rev).2.memberships := by
  unfold Network.addRevocation at accepted ⊢
  split at accepted
  · cases accepted
  · rename_i sameNetwork
    rw [if_neg sameNetwork]
    refine ⟨_, withMembership_lookup net _ _, ?_⟩
    rcases @addRevocation_cases crypto RR ((net.memberships.lookup rev.target).getD .nil) rev with
      ⟨-, refused, -⟩ | ⟨-, -, raised⟩ | ⟨-, keyed, -, -⟩
    · rw [Network.withMembership] at accepted
      rw [refused] at accepted
      cases accepted
    · rw [raised]
      exact le_max_left _ _
    · exact absurd keyed (not_keyed_com type)

/-- Once a COM revocation of a member is accepted, the gate admits the member on a network that is
not public only with a newer certificate, along every run that keeps the member's threshold. -/
theorem gate_refuses_revoked (crypto : Crypto) (net : Network) (RR : RuntimeEnvironment)
    (rev : Revocation) (operations : List Operation) (type : rev.credentialType = .com)
    (accepted : (net.addRevocation crypto RR rev).1.accepted = true)
    (along : Along (step crypto) (KeepsMember crypto rev.target rev.threshold.toInt)
      (net.addRevocation crypto RR rev).2 operations) :
    Throughout (step crypto) (AdmitsOnlyNewer crypto rev.target rev.threshold.toInt)
      (net.addRevocation crypto RR rev).2 operations := by
  have bounded : Throughout (step crypto)
      (fun net => Bound rev.target rev.threshold.toInt net.memberships)
      (net.addRevocation crypto RR rev).2 operations := throughout_of_along
    (step_bound crypto rev.target rev.threshold.toInt)
    (addRevocation_accepted_bound type accepted) along
  exact bounded.imp (fun _ bound => admits_of_bound crypto bound)

/-- A certificate of membership of node 9, issued by controller 1 at time `ts`. -/
def memberCom (ts : BitVec 64) : CertificateOfMembership :=
  ⟨[⟨0, ts, 1000⟩, ⟨1, 0x1000005, 0⟩, ⟨2, 9, 0xffffffffffffffff⟩], 1, 0⟩

/-- A private network without members, as node 7 has it at time 60. -/
def privateNetwork : Network :=
  ⟨0x1000005, { NetworkConfig.nil with networkId := 0x1000005, issuedTo := 7, com := memberCom 60 },
    0, false, ∅⟩

/-- Node 7 with its controller and node 9 as peers. -/
def memberKnown : RuntimeEnvironment where
  identity := ⟨7, 0⟩
  peers := fun address => if address = 1 then some ⟨1, 0⟩ else if address = 9 then some ⟨9, 0⟩ else none

theorem gate_refuses_replayed_com :
    Throughout (step signedCrypto) (AdmitsOnlyNewer signedCrypto 9 100)
      (privateNetwork.addRevocation signedCrypto memberKnown (controllerRevocation 1 100)).2
      [.clean memberKnown, .addCom memberKnown (memberCom 50)] :=
  gate_refuses_revoked signedCrypto privateNetwork memberKnown (controllerRevocation 1 100)
    [.clean memberKnown, .addCom memberKnown (memberCom 50)] (by decide) (by decide)
    ⟨.inr (by decide), trivial, trivial⟩

/-- When housekeeping has dropped the entry of a peer the topology no longer knows, a replayed
certificate from before the revocation is admitted again. -/
theorem clean_readmits_revoked :
    ∃ net RR rev operations, rev.credentialType = .com ∧
      (Network.addRevocation signedCrypto RR net rev).1.accepted = true ∧
      ¬ Throughout (step signedCrypto) (AdmitsOnlyNewer signedCrypto rev.target rev.threshold.toInt)
        (Network.addRevocation signedCrypto RR net rev).2 operations := by
  refine ⟨privateNetwork, controllerKnown, controllerRevocation 1 100,
    [.clean controllerKnown, .addCom controllerKnown (memberCom 50)], by decide, by decide, ?_⟩
  intro holds
  obtain ⟨m, entry, newer⟩ := holds.2.2 ⟨9, 0⟩ 0 rfl (by decide) (by decide)
  have held := congrArg (Option.map (fun m : Membership => m.com.timestamp.toInt)) entry
  have replayed : some m.com.timestamp.toInt = some 50 := held.symm.trans (by decide)
  have bound : (100 : Int) < m.com.timestamp.toInt := newer
  rw [Option.some.injEq] at replayed
  omega

end ZeroTierNode.NetworkGate
