import ZeroTierNode.CredentialCodec
import ZeroTierNode.Network
import ZeroTierNode.RateGates

/-!
`IncomingPacket::_doNETWORK_CREDENTIALS`. The credentials of a packet stand in the
order of their kinds and are passed on one by one as they are read; the first whose
signer is not known ends the attempt. What is in a packet does not depend on the
node, so an attempt that nothing ends passes on all that is in it.
-/

namespace ZeroTierNode
open Library.Bytes Buffer

namespace Credential

def networkId : Credential → BitVec 64
  | .tag issued => issued.networkId
  | .capability cap => cap.nwid
  | .coo owned => owned.networkId
  | .revocation rev => rev.networkId
  | .com member => member.networkId

/-- Only an empty COM is not looked at. -/
def isSet : Credential → Bool
  | .com member => member.isSet
  | _ => true

end Credential

/-- The overloads of `Network::addCredential`. -/
def Network.addCredential (crypto : Crypto) (RR : RuntimeEnvironment) (net : Network) :
    Credential → AddCredentialResult × Network
  | .tag issued => net.addTag crypto RR issued
  | .capability cap => net.addCapability crypto RR cap
  | .coo owned => net.addCoo crypto RR owned
  | .revocation rev => net.addRevocation crypto RR rev
  | .com member => net.addCom crypto RR member

namespace CredentialPackets

/-- `VERB_NETWORK_CREDENTIALS`. -/
abbrev networkCredentials : Byte := 0x0a

/-- The networks of the node, and what was passed to `Network::addCredential` so far. -/
structure Receiver where
  networks : BitVec 64 → Option Network
  passed : List Credential

/-- Where a loop over credentials ends: at a position, at a credential that has to wait, or with an exception. -/
inductive Scan
  | reached (p : Nat)
  | deferred
  | threw

/-- The ends of the handler: refused by the rate gate or finished, which both return true, waiting, or an exception.
A packet that ends early is finished without `peer->received`. -/
inductive Result
  | refused
  | finished (received : Bool)
  | deferred
  | threw
deriving DecidableEq

section Handler

variable (crypto : Crypto) (RR : RuntimeEnvironment)

/-- A credential goes to its network, if that is joined; the flag says whether it has to wait. -/
def offer (r : Receiver) (credential : Credential) : Bool × Receiver :=
  if credential.isSet then
    match r.networks credential.networkId with
    | none => (false, r)
    | some net =>
        let (result, net) := net.addCredential crypto RR credential
        (result = .deferredForWhois,
          ⟨Function.update r.networks credential.networkId (some net), r.passed ++ [credential]⟩)
  else (false, r)

/-- The loop over the certificates of membership, each of which takes at least a byte. -/
def addComs (b : List Byte) : Nat → Nat → Receiver → Scan × Receiver
  | 0, p, r => (.reached p, r)
  | fuel + 1, p, r =>
      if p < b.length ∧ Packet.byteAt b p ≠ 0 then
        match Credential.deserialize .com b p with
        | none => (.threw, r)
        | some (com, taken) =>
            let (deferred, r) := offer crypto RR r com
            if deferred then (.deferred, r) else addComs b fuel (p + taken) r
      else (.reached p, r)

/-- The loop over the credentials of a kind. -/
def addMany (b : List Byte) (kind : CredentialType) : Nat → Nat → Receiver → Scan × Receiver
  | 0, p, r => (.reached p, r)
  | count + 1, p, r =>
      match Credential.deserialize kind b p with
      | none => (.threw, r)
      | some (credential, taken) =>
          let (deferred, r) := offer crypto RR r credential
          if deferred then (.deferred, r) else addMany b kind count (p + taken) r

/-- The counted kinds one after the other; the packet may end in front of all but the first. -/
def addSections (b : List Byte) : List CredentialType → Nat → Receiver → Result × Receiver
  | [], _, r => (.finished true, r)
  | kind :: kinds, p, r =>
      match at16 b p with
      | none => (.threw, r)
      | some count =>
          match addMany crypto RR b kind count.toNat (p + 2) r with
          | (.reached p, r) =>
              if kinds ≠ [] ∧ b.length ≤ p then (.finished false, r) else addSections b kinds p r
          | (.deferred, r) => (.deferred, r)
          | (.threw, r) => (.threw, r)

/-- The kinds in the order in which they are sent. -/
def sections : List CredentialType := [.capability, .tag, .revocation, .coo]

/-- The handler behind the rate gate. -/
def process (b : List Byte) (r : Receiver) : Result × Receiver :=
  match addComs crypto RR b b.length 28 r with
  | (.reached p, r) => if p + 1 < b.length then addSections crypto RR b sections (p + 1) r else (.finished true, r)
  | (.deferred, r) => (.deferred, r)
  | (.threw, r) => (.threw, r)

/-- `_doNETWORK_CREDENTIALS`. -/
def doNetworkCredentials (now : Int) (peer : Peer) (b : List Byte) (r : Receiver) : Result × Peer × Receiver :=
  let (passes, peer) := peer.rateGateCredentialsReceived now
  if passes then
    let (result, r) := process crypto RR b r
    (result, peer, r)
  else (.refused, peer, r)

end Handler

/-- The credentials that the loops read, and where they end when nothing has to wait. -/
def readComs (b : List Byte) : Nat → Nat → List Credential × Scan
  | 0, p => ([], .reached p)
  | fuel + 1, p =>
      if p < b.length ∧ Packet.byteAt b p ≠ 0 then
        match Credential.deserialize .com b p with
        | none => ([], .threw)
        | some (com, taken) => (com :: (readComs b fuel (p + taken)).1, (readComs b fuel (p + taken)).2)
      else ([], .reached p)

def readMany (b : List Byte) (kind : CredentialType) : Nat → Nat → List Credential × Scan
  | 0, p => ([], .reached p)
  | count + 1, p =>
      match Credential.deserialize kind b p with
      | none => ([], .threw)
      | some (credential, taken) =>
          (credential :: (readMany b kind count (p + taken)).1, (readMany b kind count (p + taken)).2)

def readSections (b : List Byte) : List CredentialType → Nat → List Credential
  | [], _ => []
  | kind :: kinds, p =>
      match at16 b p with
      | none => []
      | some count =>
          match readMany b kind count.toNat (p + 2) with
          | (credentials, .reached p) =>
              if kinds ≠ [] ∧ b.length ≤ p then credentials else credentials ++ readSections b kinds p
          | (credentials, _) => credentials

/-- The credentials in a packet, up to one that cannot be read. -/
def credentialsIn (b : List Byte) : List Credential :=
  match readComs b b.length 28 with
  | (coms, .reached p) => if p + 1 < b.length then coms ++ readSections b sections (p + 1) else coms
  | (coms, _) => coms

/-- A credential that is not empty, of a network that the node has joined. -/
def wanted (r : Receiver) (credential : Credential) : Bool :=
  credential.isSet ∧ (r.networks credential.networkId).isSome

section Specification

variable (crypto : Crypto) (RR : RuntimeEnvironment)

/-- The signers of the credential are known, whether or not it is genuine. -/
def SignersKnown (credential : Credential) : Prop := credential.verify crypto RR ≠ .waitingForWhois

def offerAll (r : Receiver) (credentials : List Credential) : Receiver :=
  credentials.foldl (fun r credential => (offer crypto RR r credential).2) r

variable {crypto RR}

theorem addCredImpl_known {C : Type} [RemoteCredential C] [DecidableEq C] (remoteCreds : Remote C)
    (revocations : Revocations) {cred : C} (known : RemoteCredential.verify crypto RR cred ≠ .waitingForWhois) :
    (Membership.addCredImpl crypto RR remoteCreds revocations cred).1 ≠ .deferredForWhois := by
  unfold Membership.addCredImpl
  dsimp only
  split
  · simp
  · split
    · simp
    · split
      · simp
      · split
        · simp
        · simp
        · rename_i verdict
          exact absurd verdict known

theorem addCom_known (m : Membership) {com : CertificateOfMembership}
    (known : com.verify crypto RR ≠ .waitingForWhois) : (m.addCom crypto RR com).1 ≠ .deferredForWhois := by
  unfold Membership.addCom
  dsimp only
  split
  · simp
  · split
    · simp
    · split
      · simp
      · split
        · simp
        · simp
        · rename_i verdict
          exact absurd verdict known

theorem addRevocation_known (m : Membership) {rev : Revocation} (known : rev.verify crypto RR ≠ .waitingForWhois) :
    (m.addRevocation crypto RR rev).1 ≠ .deferredForWhois := by
  have raised (key : BitVec 64) (threshold : Int) :
      (m.addCredentialRevocation key threshold).1 ≠ .deferredForWhois := by
    unfold Membership.addCredentialRevocation
    dsimp only
    split <;> simp
  unfold Membership.addRevocation
  cases verdict : rev.verify crypto RR with
  | waitingForWhois => exact absurd verdict known
  | bad => simp
  | ok =>
      dsimp only
      cases rev.credentialType with
      | com =>
          dsimp only
          split <;> simp
      | capability => exact raised _ _
      | tag => exact raised _ _
      | coo => exact raised _ _
      | null => simp
      | revocation => simp

/-- Whatever a membership entry answers, the network answers, unless the credential is of another network. -/
theorem withMembership_known {net : Network} {nwid : BitVec 64} {a : Address}
    {add : Membership → AddCredentialResult × Membership} (known : ∀ m, (add m).1 ≠ .deferredForWhois) :
    (if nwid ≠ net.id then (.rejected, net) else net.withMembership a add).1 ≠ .deferredForWhois := by
  split
  · simp
  · exact known _

/-- A credential whose signers are known does not have to wait. -/
theorem addCredential_known {credential : Credential} (known : SignersKnown crypto RR credential) (net : Network) :
    (net.addCredential crypto RR credential).1 ≠ .deferredForWhois := by
  cases credential with
  | tag issued => exact withMembership_known fun m => addCredImpl_known m.remoteTags m.revocations known
  | capability cap => exact withMembership_known fun m => addCredImpl_known m.remoteCaps m.revocations known
  | coo owned => exact withMembership_known fun m => addCredImpl_known m.remoteCoos m.revocations known
  | revocation rev => exact withMembership_known fun m => addRevocation_known m known
  | com member => exact withMembership_known fun m => addCom_known m known

theorem offer_known {credential : Credential} (known : SignersKnown crypto RR credential) (r : Receiver) :
    (offer crypto RR r credential).1 = false := by
  unfold offer
  split
  · split
    · rfl
    · exact decide_eq_false (addCredential_known known _)
  · rfl

theorem addComs_known {b : List Byte} {fuel p : Nat} {r : Receiver}
    (known : ∀ credential ∈ (readComs b fuel p).1, SignersKnown crypto RR credential) :
    addComs crypto RR b fuel p r = ((readComs b fuel p).2, offerAll crypto RR r (readComs b fuel p).1) := by
  induction fuel generalizing p r with
  | zero => rfl
  | succ fuel ih =>
      rw [readComs] at known ⊢
      rw [addComs]
      by_cases more : p < b.length ∧ Packet.byteAt b p ≠ 0
      · rw [if_pos more] at known ⊢
        rw [if_pos more]
        cases read : Credential.deserialize .com b p with
        | none => rfl
        | some found =>
            rw [read] at known
            dsimp only at known ⊢
            rw [offer_known (known found.1 List.mem_cons_self), if_neg Bool.false_ne_true,
              ih fun other member => known other (List.mem_cons_of_mem _ member)]
            rfl
      · rw [if_neg more, if_neg more]
        rfl

theorem addMany_known {b : List Byte} {kind : CredentialType} {count p : Nat} {r : Receiver}
    (known : ∀ credential ∈ (readMany b kind count p).1, SignersKnown crypto RR credential) :
    addMany crypto RR b kind count p r =
      ((readMany b kind count p).2, offerAll crypto RR r (readMany b kind count p).1) := by
  induction count generalizing p r with
  | zero => rfl
  | succ count ih =>
      rw [readMany] at known ⊢
      rw [addMany]
      cases read : Credential.deserialize kind b p with
      | none => rfl
      | some found =>
          rw [read] at known
          dsimp only at known ⊢
          rw [offer_known (known found.1 List.mem_cons_self), if_neg Bool.false_ne_true,
            ih fun other member => known other (List.mem_cons_of_mem _ member)]
          rfl

theorem readComs_ends (b : List Byte) (fuel p : Nat) :
    (readComs b fuel p).2 = .threw ∨ ∃ stop, (readComs b fuel p).2 = .reached stop := by
  induction fuel generalizing p with
  | zero => exact Or.inr ⟨p, rfl⟩
  | succ fuel ih =>
      rw [readComs]
      split
      · split
        · exact Or.inl rfl
        · exact ih _
      · exact Or.inr ⟨p, rfl⟩

theorem readMany_ends (b : List Byte) (kind : CredentialType) (count p : Nat) :
    (readMany b kind count p).2 = .threw ∨ ∃ stop, (readMany b kind count p).2 = .reached stop := by
  induction count generalizing p with
  | zero => exact Or.inr ⟨p, rfl⟩
  | succ count ih =>
      rw [readMany]
      split
      · exact Or.inl rfl
      · exact ih _

theorem offerAll_append (r : Receiver) (first second : List Credential) :
    offerAll crypto RR r (first ++ second) = offerAll crypto RR (offerAll crypto RR r first) second :=
  List.foldl_append

theorem addSections_known {b : List Byte} {kinds : List CredentialType} {p : Nat} {r : Receiver}
    (known : ∀ credential ∈ readSections b kinds p, SignersKnown crypto RR credential) :
    (addSections crypto RR b kinds p r).1 ≠ .deferred ∧
      (addSections crypto RR b kinds p r).2 = offerAll crypto RR r (readSections b kinds p) := by
  induction kinds generalizing p r with
  | nil => exact ⟨Result.noConfusion, rfl⟩
  | cons kind kinds ih =>
      rw [readSections] at known ⊢
      rw [addSections]
      cases counted : at16 b p with
      | none => exact ⟨Result.noConfusion, rfl⟩
      | some count =>
          rw [counted] at known
          dsimp only at known ⊢
          have ends := readMany_ends b kind count.toNat (p + 2)
          have loop := @addMany_known crypto RR b kind count.toNat (p + 2) r
          generalize readMany b kind count.toNat (p + 2) = found at known ends loop ⊢
          obtain ⟨credentials, scan⟩ := found
          rcases ends with threw | ⟨stop, reached⟩
          · change scan = .threw at threw
            rw [threw] at known ⊢
            rw [loop known, threw]
            exact ⟨Result.noConfusion, rfl⟩
          · change scan = .reached stop at reached
            rw [reached] at known ⊢
            dsimp only at known ⊢
            by_cases ended : kinds ≠ [] ∧ b.length ≤ stop
            · rw [if_pos ended] at known ⊢
              rw [loop known, reached]
              dsimp only
              rw [if_pos ended]
              exact ⟨Result.noConfusion, rfl⟩
            · rw [if_neg ended] at known ⊢
              rw [loop fun other member => known other (List.mem_append_left _ member), reached]
              dsimp only
              rw [if_neg ended, offerAll_append]
              exact ih fun other member => known other (List.mem_append_right _ member)

/-- When all signers are known, the handler offers what is in the packet, and nothing has to wait. -/
theorem process_known {b : List Byte} (known : ∀ credential ∈ credentialsIn b, SignersKnown crypto RR credential)
    (r : Receiver) :
    (process crypto RR b r).1 ≠ .deferred ∧ (process crypto RR b r).2 = offerAll crypto RR r (credentialsIn b) := by
  rw [credentialsIn] at known ⊢
  rw [process]
  have ends := readComs_ends b b.length 28
  have loop := @addComs_known crypto RR b b.length 28 r
  generalize readComs b b.length 28 = found at known ends loop ⊢
  obtain ⟨coms, scan⟩ := found
  rcases ends with threw | ⟨stop, reached⟩
  · change scan = .threw at threw
    rw [threw] at known ⊢
    rw [loop known, threw]
    exact ⟨Result.noConfusion, rfl⟩
  · change scan = .reached stop at reached
    rw [reached] at known ⊢
    dsimp only at known ⊢
    by_cases more : stop + 1 < b.length
    · rw [if_pos more] at known ⊢
      rw [loop fun other member => known other (List.mem_append_left _ member), reached]
      dsimp only
      rw [if_pos more, offerAll_append]
      exact addSections_known fun other member => known other (List.mem_append_right _ member)
    · rw [if_neg more] at known ⊢
      rw [loop known, reached]
      dsimp only
      rw [if_neg more]
      exact ⟨Result.noConfusion, rfl⟩

/-- A network stays joined. -/
theorem offer_joined (r : Receiver) (credential : Credential) (id : BitVec 64) :
    ((offer crypto RR r credential).2.networks id).isSome = (r.networks id).isSome := by
  unfold offer
  split
  · cases joined : r.networks credential.networkId with
    | none => rfl
    | some net =>
        dsimp only
        by_cases same : id = credential.networkId
        · rw [same, Function.update_self, joined]
          rfl
        · rw [Function.update_of_ne same]
  · rfl

theorem offer_wanted (r : Receiver) (credential : Credential) : wanted (offer crypto RR r credential).2 = wanted r := by
  funext other
  simp only [wanted, offer_joined]

theorem offer_passed (r : Receiver) (credential : Credential) :
    (offer crypto RR r credential).2.passed = r.passed ++ if wanted r credential then [credential] else [] := by
  unfold offer wanted
  by_cases set : credential.isSet = true
  · rw [if_pos set]
    cases joined : r.networks credential.networkId with
    | none => simp
    | some net => simp [set]
  · rw [if_neg set]
    simp [set]

theorem offerAll_wanted (r : Receiver) (credentials : List Credential) :
    wanted (offerAll crypto RR r credentials) = wanted r := by
  induction credentials generalizing r with
  | nil => rfl
  | cons credential credentials ih =>
      exact (ih (offer crypto RR r credential).2).trans (offer_wanted r credential)

theorem offerAll_passed (r : Receiver) (credentials : List Credential) :
    (offerAll crypto RR r credentials).passed = r.passed ++ credentials.filter (wanted r) := by
  induction credentials generalizing r with
  | nil => simp [offerAll]
  | cons credential credentials ih =>
      have next := ih (offer crypto RR r credential).2
      rw [offer_wanted, offer_passed] at next
      change (offerAll crypto RR (offer crypto RR r credential).2 credentials).passed = _
      rw [next, List.append_assoc, List.filter_cons]
      split <;> rfl

/-- When all signers are known, a packet that the gate lets through is passed on as a whole, and no other. -/
theorem doNetworkCredentials_known {b : List Byte}
    (known : ∀ credential ∈ credentialsIn b, SignersKnown crypto RR credential) (now : Int) (peer : Peer)
    (r : Receiver) :
    (doNetworkCredentials crypto RR now peer b r).2 =
      if 1000 ≤ now - peer.lastCredentialsReceived then
        ({ peer with lastCredentialsReceived := now }, offerAll crypto RR r (credentialsIn b))
      else (peer, r) := by
  unfold doNetworkCredentials Peer.rateGateCredentialsReceived Library.Stamps.letThrough
  by_cases ripe : (1000 : Int) ≤ now - peer.lastCredentialsReceived
  · rw [if_pos ripe, if_pos ripe]
    dsimp only
    rw [if_pos rfl, (process_known known r).2]
  · rw [if_neg ripe, if_neg ripe]
    rfl

end Specification

end CredentialPackets

end ZeroTierNode
