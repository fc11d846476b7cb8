import ZeroTierNode.NetworkConfig
import ZeroTierNode.PeerBinding
import ZeroTierNode.Prefixes
import ZeroTierNode.TrustedPaths

/-!
`Node::shouldUsePathForZeroTierTraffic`: which physical addresses may carry the traffic
of the node. Those in the networks that it joins are to be refused.
-/

namespace ZeroTierNode.PathChecks
open Library.Shifts
open Prefixes (contains4_iff contains6_iff)
open TrustedPaths (Contains)
open InetAddress (byte6)

/-- `Path::isAddressValidForPath`, with the tunnels of 2001:470::/32 ruled out. -/
def isAddressValidForPath (a : InetAddress) : Bool :=
  match a.ipScope with
  | .privateUse | .pseudoprivate | .shared | .global =>
      match a with
      | .v6 ip _ => ¬(byte6 ip 0 = 0x20 ∧ byte6 ip 1 = 0x01 ∧ byte6 ip 2 = 0x04 ∧ byte6 ip 3 = 0x70)
      | .v4 _ _ => true
      | .nil => false
  | _ => false

/-- `Topology::isProhibitedEndpoint`. -/
def isProhibitedEndpoint (t : Topology) (ztaddr : Address) (ipaddr : InetAddress) : Bool :=
  if ztaddr ∈ t.upstreamAddresses then
    ¬ (t.roots.any fun r =>
      r.identity.address = ztaddr ∧ (r.stableEndpoints.isEmpty ∨ r.stableEndpoints.any fun e => ipaddr.ipsEqual e))
  else false

/-- `hasConfig`. -/
def hasConfig (config : NetworkConfig) : Bool := config.networkId ≠ 0

/-- What the function looks at: the topology, the configurations of the networks, and the callback of the
application, which gets the address of the peer, the socket and the remote address. -/
structure Node where
  topology : Topology
  networks : List NetworkConfig
  pathCheckFunction : Option (BitVec 64 → BitVec 64 → InetAddress → Int)

namespace Node

variable (n : Node)

/-- The answer of the application. -/
def pathCheck (ztaddr : Address) (localSocket : BitVec 64) (remoteAddress : InetAddress) : Bool :=
  match n.pathCheckFunction with
  | some check => check ztaddr.toInt localSocket remoteAddress ≠ 0
  | none => true

def shouldUsePathForZeroTierTraffic (ztaddr : Address) (localSocket : BitVec 64) (remoteAddress : InetAddress) : Bool :=
  if ¬ isAddressValidForPath remoteAddress then false
  else if isProhibitedEndpoint n.topology ztaddr remoteAddress then false
  else if n.networks.any fun config =>
    hasConfig config ∧ config.staticIps.any fun ip => ip.containsAddress remoteAddress then false
  else n.pathCheck ztaddr localSocket remoteAddress

/-- The addresses that are assigned in the networks. -/
def assigned : List InetAddress := (n.networks.filter hasConfig).flatMap NetworkConfig.staticIps

end Node

section Meaning

/-- `netmaskBitsValid`, or no address. -/
def ValidPrefix : InetAddress → Prop
  | .v4 _ bits => bits.toNat ≤ 32
  | .v6 _ bits => bits.toNat ≤ 128
  | .nil => True

/-- An IPv6 prefix with nothing behind it; of IPv4 and nil nothing is asked. -/
def HostClear : InetAddress → Prop
  | .v6 ip bits => Bare bits.toNat ip
  | _ => True

/-- The prefix contains the addresses that it is to contain. -/
def Exact (net : InetAddress) : Prop := ∀ addr, net.containsAddress addr = true ↔ Contains net addr

/-- The remote address is in a network that the node has joined. -/
def Node.Inside (n : Node) (remoteAddress : InetAddress) : Prop := ∃ ip ∈ n.assigned, Contains ip remoteAddress

/-- Another check refuses the address. -/
def Node.RefusedElsewhere (n : Node) (ztaddr : Address) (localSocket : BitVec 64) (remoteAddress : InetAddress) : Prop :=
  isAddressValidForPath remoteAddress = false ∨ isProhibitedEndpoint n.topology ztaddr remoteAddress = true ∨
    n.pathCheck ztaddr localSocket remoteAddress = false

/-- The address is outside of all assigned prefixes, or in one without host bits, or refused by another check. -/
def Node.Safe (n : Node) (ztaddr : Address) (localSocket : BitVec 64) (remoteAddress : InetAddress) : Prop :=
  ¬ n.Inside remoteAddress ∨ (∃ ip ∈ n.assigned, HostClear ip ∧ Contains ip remoteAddress) ∨
    n.RefusedElsewhere ztaddr localSocket remoteAddress

end Meaning

section Containment

theorem containsAddress_iff {net addr : InetAddress} (valid : ValidPrefix net) :
    net.containsAddress addr = true ↔ HostClear net ∧ Contains net addr := by
  cases net with
  | nil => simp [InetAddress.containsAddress, Contains]
  | v4 net bits =>
      cases addr with
      | nil => simp [InetAddress.containsAddress, Contains]
      | v6 ip port => simp [InetAddress.containsAddress, Contains]
      | v4 ip port =>
          rw [contains4_iff valid]
          exact (iff_of_eq (true_and _)).symm
  | v6 net bits =>
      cases addr with
      | nil => simp [InetAddress.containsAddress, Contains]
      | v4 ip port => simp [InetAddress.containsAddress, Contains]
      | v6 ip port =>
          rw [contains6_iff]
          exact And.comm

/-- A prefix contains its own address. -/
theorem contains_self {net : InetAddress} (address : net ≠ .nil) : Contains net net := by
  cases net with
  | nil => exact absurd rfl address
  | v4 ip bits => exact fun _ _ => rfl
  | v6 ip bits => exact fun _ _ => rfl

theorem exact_iff {net : InetAddress} (valid : ValidPrefix net) : Exact net ↔ HostClear net := by
  constructor
  · intro exact'
    by_cases address : net = .nil
    · subst address
      exact trivial
    · exact ((containsAddress_iff valid).mp ((exact' net).mpr (contains_self address))).1
  · intro clear addr
    rw [containsAddress_iff valid]
    exact and_iff_right clear

end Containment

section Traffic

variable {n : Node} {ztaddr : Address} {localSocket : BitVec 64} {remoteAddress : InetAddress}

theorem mem_assigned {ip : InetAddress} :
    ip ∈ n.assigned ↔ ∃ config ∈ n.networks, hasConfig config = true ∧ ip ∈ config.staticIps := by
  simp only [Node.assigned, List.mem_flatMap, List.mem_filter, and_assoc]

/-- The loop over the networks. -/
theorem recursion_found_iff :
    (n.networks.any fun config =>
      hasConfig config ∧ config.staticIps.any fun ip => ip.containsAddress remoteAddress) = true ↔
      ∃ ip ∈ n.assigned, ip.containsAddress remoteAddress = true := by
  simp only [List.any_eq_true, decide_eq_true_eq, mem_assigned]
  constructor
  · intro ⟨config, joined, has, ip, listed, contained⟩
    exact ⟨ip, ⟨config, joined, has, listed⟩, contained⟩
  · intro ⟨ip, ⟨config, joined, has, listed⟩, contained⟩
    exact ⟨config, joined, has, ip, listed, contained⟩

theorem refused_iff :
    n.shouldUsePathForZeroTierTraffic ztaddr localSocket remoteAddress = false ↔
      (∃ ip ∈ n.assigned, ip.containsAddress remoteAddress = true) ∨
        n.RefusedElsewhere ztaddr localSocket remoteAddress := by
  rw [← recursion_found_iff]
  unfold Node.shouldUsePathForZeroTierTraffic Node.RefusedElsewhere
  by_cases valid : isAddressValidForPath remoteAddress = true
  · by_cases prohibited : isProhibitedEndpoint n.topology ztaddr remoteAddress = true
    · simp [valid, prohibited]
    · by_cases found : (n.networks.any fun config =>
          hasConfig config ∧ config.staticIps.any fun ip => ip.containsAddress remoteAddress) = true
      · rw [if_neg (by simp [valid]), if_neg prohibited, if_pos found]
        exact ⟨fun _ => .inl found, fun _ => rfl⟩
      · rw [if_neg (by simp [valid]), if_neg prohibited, if_neg found]
        constructor
        · intro no
          exact .inr (.inr (.inr no))
        · intro refused
          rcases refused with hit | invalid | no | no
          · exact absurd hit found
          · exact absurd (invalid.symm.trans valid) Bool.false_ne_true
          · exact absurd no prohibited
          · exact no
  · simp [valid]

theorem safe_iff (statics : ∀ ip ∈ n.assigned, ValidPrefix ip) :
    (n.Inside remoteAddress → n.shouldUsePathForZeroTierTraffic ztaddr localSocket remoteAddress = false) ↔
      n.Safe ztaddr localSocket remoteAddress := by
  have found : (∃ ip ∈ n.assigned, ip.containsAddress remoteAddress = true) ↔
      ∃ ip ∈ n.assigned, HostClear ip ∧ Contains ip remoteAddress := by
    apply exists_congr
    intro ip
    exact and_congr_right fun listed => containsAddress_iff (statics ip listed)
  rw [refused_iff, found]
  exact imp_iff_not_or

end Traffic

/-- A prefix contains what it should, and the traffic of the node is kept out of an assigned prefix, except for IPv6
prefixes with host bits. -/
theorem containment_iff {net : InetAddress} (valid : ValidPrefix net) {n : Node}
    (statics : ∀ ip ∈ n.assigned, ValidPrefix ip) (ztaddr : Address) (localSocket : BitVec 64)
    (remoteAddress : InetAddress) :
    (Exact net ↔ HostClear net) ∧
      ((n.Inside remoteAddress → n.shouldUsePathForZeroTierTraffic ztaddr localSocket remoteAddress = false) ↔
        n.Safe ztaddr localSocket remoteAddress) :=
  ⟨exact_iff valid, safe_iff statics⟩

section Assigned

/-- A node with the address that is assigned to it by its own in a network, as RFC 4193 addresses are. -/
def memberNode : Node where
  topology := Topology.new ⟨0x2000000007, 7⟩
  networks := [{ NetworkConfig.nil with
    networkId := 0x8056c2e21c000001
    staticIps := [.makeIpv6rfc4193 0x8056c2e21c000001 0x2000000007] }]
  pathCheckFunction := none

/-- The address of another member, with a port. -/
def otherMember : InetAddress := .v6 0xfd8056c2e21c00000199931000000005 9993

theorem memberNode_assigned : memberNode.assigned = [.v6 0xfd8056c2e21c00000199932000000007 88] := by
  decide +kernel

theorem otherMember_inside : Contains (.v6 0xfd8056c2e21c00000199932000000007 88) otherMember := by
  show ∀ i < 88, (0xfd8056c2e21c00000199931000000005 : BitVec 128).getMsbD i =
    (0xfd8056c2e21c00000199932000000007 : BitVec 128).getMsbD i
  decide +kernel

/-- Traffic for the node itself may be sent to the address of another member in the network, although it is inside of
the prefix that is assigned. -/
theorem static_address_recurses :
    ¬ (memberNode.Inside otherMember → memberNode.shouldUsePathForZeroTierTraffic 0x1000000005 1 otherMember = false) ∧
      ¬ Exact (.v6 0xfd8056c2e21c00000199932000000007 88) := by
  constructor
  · intro claim
    have inside : memberNode.Inside otherMember := by
      refine ⟨_, ?_, otherMember_inside⟩
      rw [memberNode_assigned]
      exact List.mem_singleton_self _
    exact absurd (claim inside) (by decide +kernel)
  · intro exact'
    exact absurd ((exact' otherMember).mpr otherMember_inside) (by decide +kernel)

/-- A prefix without host bits. -/
theorem network_prefix_exact : Exact (.v6 0xfd8056c2e21c00000199930000000000 88) := by
  have clear : HostClear (.v6 0xfd8056c2e21c00000199930000000000 88) := by
    intro i behind
    by_cases inside : i < 128
    · have all : ∀ i < 128, 88 ≤ i → (0xfd8056c2e21c00000199930000000000 : BitVec 128).getMsbD i = false := by
        decide +kernel
      exact all i inside behind
    · exact BitVec.getMsbD_of_ge _ _ (by omega)
  have statics : ∀ ip ∈ memberNode.assigned, ValidPrefix ip := by
    intro ip listed
    rw [memberNode_assigned, List.mem_singleton] at listed
    rw [listed]
    exact (by decide : (88 : BitVec 16).toNat ≤ 128)
  have valid : ValidPrefix (.v6 0xfd8056c2e21c00000199930000000000 88) := (by decide : (88 : BitVec 16).toNat ≤ 128)
  exact (containment_iff valid statics 0x1000000005 1 otherMember).1.mpr clear

end Assigned

end ZeroTierNode.PathChecks
