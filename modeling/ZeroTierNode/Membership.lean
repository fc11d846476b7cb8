import Mathlib.Data.List.AList
import ZeroTierNode.NetworkConfig

/-!
`Membership`: the credentials and revocations this node holds about one other
member of a network. Hash tables are finite maps; times are the values of the
source's `int64_t`.
-/

namespace ZeroTierNode
open Library.Bytes

inductive AddCredentialResult
  | rejected
  | acceptedNew
  | acceptedRedundant
  | deferredForWhois
deriving DecidableEq, Repr

def AddCredentialResult.accepted : AddCredentialResult → Bool
  | .acceptedNew | .acceptedRedundant => true
  | .rejected | .deferredForWhois => false

/-- What `_addCredImpl` and its companions ask of a credential type with ids. -/
class RemoteCredential (C : Type) where
  credentialType : CredentialType
  id : C → BitVec 32
  timestamp : C → BitVec 64
  verify : Crypto → RuntimeEnvironment → C → Verdict

instance : RemoteCredential Tag where
  credentialType := .tag
  id := Tag.id
  timestamp := Tag.ts
  verify := Tag.verify

instance : RemoteCredential Capability where
  credentialType := .capability
  id := Capability.id
  timestamp := Capability.ts
  verify := Capability.verify

instance : RemoteCredential CertificateOfOwnership where
  credentialType := .coo
  id := CertificateOfOwnership.id
  timestamp := CertificateOfOwnership.ts
  verify := CertificateOfOwnership.verify

abbrev Revocations := AList (fun _ : BitVec 64 => Int)

abbrev Remote (C : Type) := AList (fun _ : BitVec 32 => C)

structure Membership where
  lastUpdatedMulticast : Int
  comRevocationThreshold : Int
  lastPushedCredentials : Int
  com : CertificateOfMembership
  revocations : Revocations
  remoteTags : Remote Tag
  remoteCaps : Remote Capability
  remoteCoos : Remote CertificateOfOwnership

namespace Membership

/-- `Membership()`. -/
def nil : Membership := ⟨0, 0, 0, .nil, ∅, ∅, ∅, ∅⟩

def credentialKey (t : CredentialType) (i : BitVec 32) : BitVec 64 :=
  (t.toCode <<< 32) ||| i.setWidth 64

section Add

variable (crypto : Crypto) (RR : RuntimeEnvironment)

/-- `addCredential` of a certificate of membership. -/
def addCom (m : Membership) (com : CertificateOfMembership) : AddCredentialResult × Membership :=
  let newts := com.timestamp.toInt
  if newts ≤ m.comRevocationThreshold then (.rejected, m)
  else if newts < m.com.timestamp.toInt then (.rejected, m)
  else if m.com = com then (.acceptedRedundant, m)
  else match com.verify crypto RR with
    | .bad => (.rejected, m)
    | .ok => (.acceptedNew, { m with com := com })
    | .waitingForWhois => (.deferredForWhois, m)

/-- `_addCredImpl`. -/
def addCredImpl {C : Type} [RemoteCredential C] [DecidableEq C] (remoteCreds : Remote C)
    (revocations : Revocations) (cred : C) : AddCredentialResult × Remote C :=
  let id := RemoteCredential.id cred
  let ts := (RemoteCredential.timestamp cred).toInt
  let rc := remoteCreds.lookup id
  if rc.any (fun held => ts < (RemoteCredential.timestamp held).toInt) then (.rejected, remoteCreds)
  else if rc = some cred then (.acceptedRedundant, remoteCreds)
  else if (revocations.lookup (credentialKey (RemoteCredential.credentialType C) id)).any (fun rt => ts ≤ rt) then
    (.rejected, remoteCreds)
  else match RemoteCredential.verify crypto RR cred with
    | .bad => (.rejected, remoteCreds)
    | .ok => (.acceptedNew, remoteCreds.insert id cred)
    | .waitingForWhois => (.deferredForWhois, remoteCreds)

def addTag (m : Membership) (tag : Tag) : AddCredentialResult × Membership :=
  let (result, remoteTags) := addCredImpl crypto RR m.remoteTags m.revocations tag
  (result, { m with remoteTags := remoteTags })

def addCapability (m : Membership) (cap : Capability) : AddCredentialResult × Membership :=
  let (result, remoteCaps) := addCredImpl crypto RR m.remoteCaps m.revocations cap
  (result, { m with remoteCaps := remoteCaps })

def addCoo (m : Membership) (coo : CertificateOfOwnership) : AddCredentialResult × Membership :=
  let (result, remoteCoos) := addCredImpl crypto RR m.remoteCoos m.revocations coo
  (result, { m with remoteCoos := remoteCoos })

/-- `_revocations[key]` creates a missing entry as 0. -/
def revocationAt (m : Membership) (key : BitVec 64) : Int := (m.revocations.lookup key).getD 0

/-- The branch for revocations of capabilities, tags and certificates of ownership: the
credential's own threshold is raised, and the COM threshold is overwritten with it. -/
def addCredentialRevocation (m : Membership) (key : BitVec 64) (threshold : Int) :
    AddCredentialResult × Membership :=
  let rt := m.revocationAt key
  if rt < threshold then
    (.acceptedNew, { m with revocations := m.revocations.insert key threshold,
                            comRevocationThreshold := threshold })
  else (.acceptedRedundant, { m with revocations := m.revocations.insert key rt })

/-- `addCredential` of a revocation. -/
def addRevocation (m : Membership) (rev : Revocation) : AddCredentialResult × Membership :=
  match rev.verify crypto RR with
  | .bad => (.rejected, m)
  | .waitingForWhois => (.deferredForWhois, m)
  | .ok =>
      let ct := rev.credentialType
      match ct with
      | .com =>
          if m.comRevocationThreshold < rev.threshold.toInt then
            (.acceptedNew, { m with comRevocationThreshold := rev.threshold.toInt })
          else (.acceptedRedundant, m)
      | .capability | .tag | .coo =>
          m.addCredentialRevocation (credentialKey ct rev.credentialId) rev.threshold.toInt
      | .null | .revocation => (.rejected, m)

end Add

/-- `isAllowedOnNetwork`. -/
def isAllowedOnNetwork (crypto : Crypto) (m : Membership) (nconf : NetworkConfig)
    (otherNodeIdentity : Identity) : Bool :=
  nconf.isPublic ||
    (decide (m.comRevocationThreshold < m.com.timestamp.toInt) &&
      nconf.com.agreesWith crypto m.com otherNodeIdentity)

/-- `multicastLikeGate` with `ZT_MULTICAST_ANNOUNCE_PERIOD` of 60000. -/
def multicastLikeGate (m : Membership) (now : Int) : Bool × Membership :=
  if 60000 ≤ now - m.lastUpdatedMulticast then (true, { m with lastUpdatedMulticast := now })
  else (false, m)

/-- `_isCredentialTimestampValid`: the distance of two times is taken in 64 bits. -/
def isCredentialTimestampValid {C : Type} [RemoteCredential C] (m : Membership) (nconf : NetworkConfig)
    (cred : C) : Bool :=
  let ts := RemoteCredential.timestamp cred
  let distance := if nconf.timestamp.toInt ≤ ts.toInt then ts - nconf.timestamp else nconf.timestamp - ts
  decide (distance.toInt ≤ nconf.credentialTimeMaxDelta.toInt) &&
    ((m.revocations.lookup
        (credentialKey (RemoteCredential.credentialType C) (RemoteCredential.id cred))).all
      (fun threshold => threshold < ts.toInt))

def getTag (m : Membership) (nconf : NetworkConfig) (id : BitVec 32) : Option Tag :=
  (m.remoteTags.lookup id).filter (fun tag => m.isCredentialTimestampValid nconf tag)

/-- A certificate of ownership that is still valid and owns what is asked for. -/
def hasValidCoo (m : Membership) (nconf : NetworkConfig) (owns : CertificateOfOwnership → Bool) : Bool :=
  m.remoteCoos.entries.any (fun entry => m.isCredentialTimestampValid nconf entry.2 && owns entry.2)

theorem hasValidCoo_eq_true (m : Membership) (nconf : NetworkConfig) (owns : CertificateOfOwnership → Bool) :
    m.hasValidCoo nconf owns = true ↔ ∃ id coo, m.remoteCoos.lookup id = some coo ∧
      m.isCredentialTimestampValid nconf coo = true ∧ owns coo = true := by
  unfold hasValidCoo
  rw [List.any_eq_true]
  constructor
  · rintro ⟨entry, member, both⟩
    rw [Bool.and_eq_true] at both
    exact ⟨entry.1, entry.2, AList.mem_lookup_iff.mpr member, both⟩
  · rintro ⟨id, coo, found, both⟩
    refine ⟨⟨id, coo⟩, AList.mem_lookup_iff.mp found, ?_⟩
    rw [Bool.and_eq_true]
    exact both

/-- `_isV6NDPEmulated`: the address lies in the 6PLANE /40 or the RFC4193 /88 of the config's member,
and the member has that address. -/
def isV6NDPEmulated (nconf : NetworkConfig) (ip : InetAddress) : Bool :=
  if ip.isV6 && nconf.ndpEmulation then
    let sixpl := InetAddress.makeIpv66plane nconf.networkId nconf.issuedTo.toInt
    let rfc4193 := InetAddress.makeIpv6rfc4193 nconf.networkId nconf.issuedTo.toInt
    nconf.staticIps.any (fun static => static.ipsEqual sixpl) && ip.samePrefix 5 sixpl ||
      nconf.staticIps.any (fun static => static.ipsEqual rfc4193) && ip.samePrefix 11 rfc4193
  else false

/-- `hasCertificateOfOwnershipFor` of an IP address. -/
def hasCooForIp (m : Membership) (nconf : NetworkConfig) (ip : InetAddress) : Bool :=
  m.hasValidCoo nconf (fun coo => coo.ownsIp ip) || isV6NDPEmulated nconf ip

/-- `hasCertificateOfOwnershipFor` of a MAC address. -/
def hasCooForMac (m : Membership) (nconf : NetworkConfig) (mac : BitVec 48) : Bool :=
  m.hasValidCoo nconf (fun coo => coo.ownsMac mac)

/-- `_cleanCredImpl`: entries that are no longer valid are erased. -/
def cleanCreds {C : Type} [RemoteCredential C] (m : Membership) (nconf : NetworkConfig)
    (remoteCreds : Remote C) : Remote C :=
  remoteCreds.entries.foldl
    (fun kept entry => if m.isCredentialTimestampValid nconf entry.2 then kept else kept.erase entry.1)
    remoteCreds

def clean (m : Membership) (nconf : NetworkConfig) : Membership :=
  { m with remoteTags := m.cleanCreds nconf m.remoteTags
           remoteCaps := m.cleanCreds nconf m.remoteCaps
           remoteCoos := m.cleanCreds nconf m.remoteCoos }

end Membership

end ZeroTierNode
