import ZeroTierNode.Membership

/-!
`Network`: the joined network's configuration and its table of memberships.
Sending (fast propagation of revocations, multicast announcements) goes through
the switch and is not part of this state.
-/

namespace ZeroTierNode
open Library.Bytes

abbrev Memberships := AList (fun _ : Address => Membership)

structure Network where
  id : BitVec 64
  config : NetworkConfig
  lastConfigUpdate : Int
  destroyed : Bool
  memberships : Memberships

namespace Network

/-- `_membership(a)` creates a missing entry; the credential is then added to it. -/
def withMembership (net : Network) (a : Address) (add : Membership → AddCredentialResult × Membership) :
    AddCredentialResult × Network :=
  let (result, m) := add ((net.memberships.lookup a).getD .nil)
  (result, { net with memberships := net.memberships.insert a m })

section Credentials

variable (crypto : Crypto) (RR : RuntimeEnvironment)

def addCom (net : Network) (com : CertificateOfMembership) : AddCredentialResult × Network :=
  if com.networkId ≠ net.id then (.rejected, net)
  else net.withMembership com.issuedTo (fun m => m.addCom crypto RR com)

def addCapability (net : Network) (cap : Capability) : AddCredentialResult × Network :=
  if cap.nwid ≠ net.id then (.rejected, net)
  else net.withMembership cap.issuedTo (fun m => m.addCapability crypto RR cap)

def addTag (net : Network) (tag : Tag) : AddCredentialResult × Network :=
  if tag.networkId ≠ net.id then (.rejected, net)
  else net.withMembership tag.issuedTo (fun m => m.addTag crypto RR tag)

def addCoo (net : Network) (coo : CertificateOfOwnership) : AddCredentialResult × Network :=
  if coo.networkId ≠ net.id then (.rejected, net)
  else net.withMembership coo.issuedTo (fun m => m.addCoo crypto RR coo)

def addRevocation (net : Network) (rev : Revocation) : AddCredentialResult × Network :=
  if rev.networkId ≠ net.id then (.rejected, net)
  else net.withMembership rev.target (fun m => m.addRevocation crypto RR rev)

end Credentials

/-- `gate`: whether the peer is let onto the network; a peer let in gets a membership entry. -/
def gate (crypto : Crypto) (net : Network) (peer : Identity) (now : Int) : Bool × Network :=
  if net.config.isSet then
    let m := net.memberships.lookup peer.address
    if net.config.isPublic || m.any (fun m => m.isAllowedOnNetwork crypto net.config peer) then
      let (_, m) := (m.getD .nil).multicastLikeGate now
      (true, { net with memberships := net.memberships.insert peer.address m })
    else (false, net)
  else (false, net)

/-- One entry of the loop of `clean`. -/
def cleanEntry (RR : RuntimeEnvironment) (nconf : NetworkConfig) (kept : Memberships)
    (entry : Sigma (fun _ : Address => Membership)) : Memberships :=
  if (RR.getPeerNoCache entry.1).isSome then kept.insert entry.1 (entry.2.clean nconf)
  else kept.erase entry.1

/-- `clean`: memberships of peers the topology no longer has are dropped. -/
def clean (RR : RuntimeEnvironment) (net : Network) : Network :=
  if net.destroyed then net
  else { net with memberships := net.memberships.entries.foldl (cleanEntry RR net.config) net.memberships }

/-- `setConfiguration`: 0 for a configuration that is not for us, 1 for a duplicate, 2 for a new one. -/
def setConfiguration (RR : RuntimeEnvironment) (net : Network) (nconf : NetworkConfig) (now : Int) :
    Nat × Network :=
  if net.destroyed then (0, net)
  else if nconf.issuedTo ≠ RR.identity.address ∨ nconf.networkId ≠ net.id then (0, net)
  else if net.config = nconf then (1, net)
  else (2, { net with config := nconf, lastConfigUpdate := now })

end Network

end ZeroTierNode
