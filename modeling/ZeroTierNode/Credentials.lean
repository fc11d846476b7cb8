import ZeroTierNode.InetAddress
import ZeroTierNode.Rule

/-!
The signed credentials of a network: tags, capabilities, certificates of
ownership, certificates of membership and revocations. Each has its wire form,
the form that is signed, and `verify`. A `verify` that meets an unknown signer
asks for a WHOIS and waits; that request is made of the switch and changes no
credential state.
-/

namespace ZeroTierNode
open Library.Bytes Buffer

/-- `Credential::Type`, with the codes that revocations carry. -/
inductive CredentialType
  | null | com | capability | tag | coo | revocation
deriving DecidableEq, Repr

def CredentialType.toCode : CredentialType → BitVec 64
  | .null => 0 | .com => 1 | .capability => 2 | .tag => 3 | .coo => 4 | .revocation => 6

/-- The marker around every serialization made for signing. -/
def signMark : List Byte := wordBytes 8 (0x7f7f7f7f7f7f7f7f : BitVec 64)

/-- A signature on the wire: scheme 1, its length, its bytes. -/
def signatureField (signature : Signature) : List Byte :=
  wordBytes 1 (1 : Byte) ++ wordBytes 2 (BitVec.ofNat 16 signatureLen) ++ wordBytes 96 signature

/-- The length of additional fields, currently 0. -/
def noAdditionalFields : List Byte := wordBytes 2 (0 : BitVec 16)

/-- Read a signature field: other schemes are skipped, a wrong length throws. -/
def readSignature (b : List Byte) (p : Nat) : Option (Signature × Nat) := do
  let scheme ← at8 b p
  let len ← at16 b (p + 1)
  if scheme = 1 then
    if len.toNat = signatureLen then do
      let signature ← atWord 768 96 b (p + 3)
      return (signature, p + 3 + signatureLen)
    else none
  else return (0, p + 3 + len.toNat)

/-- Skip the additional fields; the end must lie inside the buffer. -/
def skipAdditionalFields (b : List Byte) (p : Nat) : Option Nat := do
  let len ← at16 b p
  if p + 2 + len.toNat ≤ b.length then return p + 2 + len.toNat else none

/-- The check shared by every credential with one signer; `signed` is absent when serializing throws. -/
def verifySigned (crypto : Crypto) (RR : RuntimeEnvironment) (signedBy : Address) (networkId : BitVec 64)
    (signed : Option (List Byte)) (signature : Signature) : Verdict :=
  if signedBy = 0 ∨ signedBy ≠ controllerFor networkId then .bad
  else
    let id := RR.getIdentity signedBy
    if id.isSet then
      match signed with
      | some data => if id.verify crypto data signature then .ok else .bad
      | none => .bad
    else .waitingForWhois

/-- `Tag` of a network member. -/
structure Tag where
  id : BitVec 32
  value : BitVec 32
  networkId : BitVec 64
  ts : BitVec 64
  issuedTo : Address
  signedBy : Address
  signature : Signature
deriving DecidableEq, Repr

namespace Tag

def serialize (tag : Tag) (forSign : Bool) : List Byte :=
  (if forSign then signMark else []) ++
    wordBytes 8 tag.networkId ++ wordBytes 8 tag.ts ++ wordBytes 4 tag.id ++ wordBytes 4 tag.value ++
    tag.issuedTo.appendTo ++ tag.signedBy.appendTo ++
    (if forSign then [] else signatureField tag.signature) ++ noAdditionalFields ++
    (if forSign then signMark else [])

/-- The tag and the number of bytes it takes from `startAt`. -/
def deserialize (b : List Byte) (startAt : Nat) : Option (Tag × Nat) := do
  let networkId ← at64 b startAt
  let ts ← at64 b (startAt + 8)
  let id ← at32 b (startAt + 16)
  let value ← at32 b (startAt + 20)
  let issuedTo ← Address.readAt b (startAt + 24)
  let signedBy ← Address.readAt b (startAt + 29)
  let (signature, p) ← readSignature b (startAt + 34)
  let stop ← skipAdditionalFields b p
  return (⟨id, value, networkId, ts, issuedTo, signedBy, signature⟩, stop - startAt)

def verify (crypto : Crypto) (RR : RuntimeEnvironment) (tag : Tag) : Verdict :=
  verifySigned crypto RR tag.signedBy tag.networkId (some (tag.serialize true)) tag.signature

end Tag

/-- A thing owned: `THING_MAC_ADDRESS`, `THING_IPV4_ADDRESS` or `THING_IPV6_ADDRESS` and its value. -/
structure Thing where
  type : Byte
  value : BitVec 128
deriving DecidableEq, Repr

def Thing.bytes (thing : Thing) : List Byte := wordBytes 1 thing.type ++ wordBytes 16 thing.value

/-- `ZT_CERTIFICATEOFOWNERSHIP_MAX_THINGS`. -/
abbrev maxThings : Nat := 16

/-- `things` are the array entries that were filled; `thingCount` is the count as it was read. -/
structure CertificateOfOwnership where
  networkId : BitVec 64
  ts : BitVec 64
  flags : BitVec 64
  id : BitVec 32
  thingCount : BitVec 16
  things : List Thing
  issuedTo : Address
  signedBy : Address
  signature : Signature
deriving DecidableEq, Repr

namespace CertificateOfOwnership

/-- The entries written out; a count beyond the array reads outside it and has no value here. -/
def thingsBytes (coo : CertificateOfOwnership) : Option (List Byte) :=
  if coo.thingCount.toNat ≤ coo.things.length then
    some ((coo.things.take coo.thingCount.toNat).flatMap Thing.bytes)
  else none

def serialize (coo : CertificateOfOwnership) (forSign : Bool) : Option (List Byte) := do
  let things ← coo.thingsBytes
  return (if forSign then signMark else []) ++
    wordBytes 8 coo.networkId ++ wordBytes 8 coo.ts ++ wordBytes 8 coo.flags ++ wordBytes 4 coo.id ++
    wordBytes 2 coo.thingCount ++ things ++
    coo.issuedTo.appendTo ++ coo.signedBy.appendTo ++
    (if forSign then [] else signatureField coo.signature) ++ noAdditionalFields ++
    (if forSign then signMark else [])

/-- Read `count` consecutive entries. -/
def readThings (b : List Byte) : Nat → Nat → Option (List Thing × Nat)
  | p, 0 => some ([], p)
  | p, count + 1 => do
      let type ← at8 b p
      let value ← atWord 128 16 b (p + 1)
      let (things, stop) ← readThings b (p + 17) count
      return (⟨type, value⟩ :: things, stop)

def deserialize (b : List Byte) (startAt : Nat) : Option (CertificateOfOwnership × Nat) := do
  let networkId ← at64 b startAt
  let ts ← at64 b (startAt + 8)
  let flags ← at64 b (startAt + 16)
  let id ← at32 b (startAt + 24)
  let thingCount ← at16 b (startAt + 28)
  let (things, p) ← readThings b (startAt + 30) (min thingCount.toNat maxThings)
  let issuedTo ← Address.readAt b p
  let signedBy ← Address.readAt b (p + 5)
  let (signature, p) ← readSignature b (p + 10)
  let stop ← skipAdditionalFields b p
  return (⟨networkId, ts, flags, id, thingCount, things, issuedTo, signedBy, signature⟩, stop - startAt)

def verify (crypto : Crypto) (RR : RuntimeEnvironment) (coo : CertificateOfOwnership) : Verdict :=
  verifySigned crypto RR coo.signedBy coo.networkId (coo.serialize true) coo.signature

/-- `_owns`: the first bytes of an entry of the given type are compared. -/
def ownsThing (coo : CertificateOfOwnership) (type : Byte) (bytes : Nat) {width : Nat} (value : BitVec width) :
    Bool :=
  (coo.things.take coo.thingCount.toNat).any (fun thing =>
    thing.type = type ∧ (thing.value >>> (128 - 8 * bytes)).toNat = value.toNat)

/-- `owns` of an IP address: `THING_IPV4_ADDRESS` is 2 and `THING_IPV6_ADDRESS` is 3. -/
def ownsIp (coo : CertificateOfOwnership) : InetAddress → Bool
  | .v4 ip _ => coo.ownsThing 2 4 ip
  | .v6 ip _ => coo.ownsThing 3 16 ip
  | .nil => false

/-- `owns` of a MAC address: `THING_MAC_ADDRESS` is 1. -/
def ownsMac (coo : CertificateOfOwnership) (mac : BitVec 48) : Bool := coo.ownsThing 1 6 mac

end CertificateOfOwnership

structure Revocation where
  id : BitVec 32
  credentialId : BitVec 32
  networkId : BitVec 64
  threshold : BitVec 64
  flags : BitVec 64
  target : Address
  signedBy : Address
  type : Byte
  signature : Signature
deriving DecidableEq, Repr

namespace Revocation

/-- `(Credential::Type)` of the type octet; codes without a credential count as null. -/
def credentialType (rev : Revocation) : CredentialType :=
  match rev.type.toNat with
  | 1 => .com
  | 2 => .capability
  | 3 => .tag
  | 4 => .coo
  | 6 => .revocation
  | _ => .null

/-- Bit `ZT_REVOCATION_FLAG_FAST_PROPAGATE`. -/
def fastPropagate (rev : Revocation) : Bool := rev.flags &&& 0x1 ≠ 0

def serialize (rev : Revocation) (forSign : Bool) : List Byte :=
  (if forSign then signMark else []) ++
    wordBytes 4 (0 : BitVec 32) ++ wordBytes 4 rev.id ++ wordBytes 8 rev.networkId ++
    wordBytes 4 (0 : BitVec 32) ++ wordBytes 4 rev.credentialId ++ wordBytes 8 rev.threshold ++
    wordBytes 8 rev.flags ++ rev.target.appendTo ++ rev.signedBy.appendTo ++ wordBytes 1 rev.type ++
    (if forSign then [] else signatureField rev.signature) ++ noAdditionalFields ++
    (if forSign then signMark else [])

/-- The unused bytes in front of the two ids are not looked at. -/
def deserialize (b : List Byte) (startAt : Nat) : Option (Revocation × Nat) := do
  let id ← at32 b (startAt + 4)
  let networkId ← at64 b (startAt + 8)
  let credentialId ← at32 b (startAt + 20)
  let threshold ← at64 b (startAt + 24)
  let flags ← at64 b (startAt + 32)
  let target ← Address.readAt b (startAt + 40)
  let signedBy ← Address.readAt b (startAt + 45)
  let type ← at8 b (startAt + 50)
  let (signature, p) ← readSignature b (startAt + 51)
  let stop ← skipAdditionalFields b p
  return (⟨id, credentialId, networkId, threshold, flags, target, signedBy, type, signature⟩, stop - startAt)

def verify (crypto : Crypto) (RR : RuntimeEnvironment) (rev : Revocation) : Verdict :=
  verifySigned crypto RR rev.signedBy rev.networkId (some (rev.serialize true)) rev.signature

end Revocation

/-- `ZT_MAX_CAPABILITY_RULES`. -/
abbrev maxCapabilityRules : Nat := 64

/-- `ZT_MAX_CAPABILITY_CUSTODY_CHAIN_LENGTH`. -/
abbrev maxCustodyChain : Nat := 7

structure Custody where
  toAddress : Address
  fromAddress : Address
  signature : Signature
deriving DecidableEq, Repr

def Custody.bytes (record : Custody) : List Byte :=
  record.toAddress.appendTo ++ record.fromAddress.appendTo ++ signatureField record.signature

/-- `custody` are the chain's records from its start; the remaining array entries are zero. -/
structure Capability where
  nwid : BitVec 64
  ts : BitVec 64
  id : BitVec 32
  maxCustodyChainLength : Nat
  rules : List Rule
  custody : List Custody
deriving DecidableEq, Repr

namespace Capability

def custodyAt (cap : Capability) (i : Nat) : Custody := cap.custody.getD i ⟨0, 0, 0⟩

/-- The last holder before the first record without one. -/
def issuedTo (cap : Capability) : Address :=
  (((cap.custody.take maxCustodyChain).takeWhile (fun record => record.toAddress ≠ 0)).getLast?.map
    Custody.toAddress).getD 0

def serialize (cap : Capability) (forSign : Bool) : List Byte :=
  (if forSign then signMark else []) ++
    wordBytes 8 cap.nwid ++ wordBytes 8 cap.ts ++ wordBytes 4 cap.id ++
    wordBytes 2 (BitVec.ofNat 16 cap.rules.length) ++ serializeRules cap.rules ++
    wordBytes 1 (BitVec.ofNat 8 cap.maxCustodyChainLength) ++
    (if forSign then []
     else ((cap.custody.take (min cap.maxCustodyChainLength maxCustodyChain)).takeWhile
        (fun record => record.toAddress ≠ 0)).flatMap Custody.bytes ++ Address.appendTo 0) ++
    noAdditionalFields ++
    (if forSign then signMark else [])

/-- Read custody records up to the zero address; `room` more records may follow. -/
def readCustody (b : List Byte) (p room : Nat) : Option (List Custody × Nat) := do
  let toAddress ← Address.readAt b p
  if toAddress = 0 then return ([], p + 5)
  else match room with
    | 0 => none
    | room + 1 => do
        let fromAddress ← Address.readAt b (p + 5)
        let (signature, next) ← readSignature b (p + 10)
        let (records, stop) ← readCustody b next room
        return (⟨toAddress, fromAddress, signature⟩ :: records, stop)

def deserialize (b : List Byte) (startAt : Nat) : Option (Capability × Nat) := do
  let nwid ← at64 b startAt
  let ts ← at64 b (startAt + 8)
  let id ← at32 b (startAt + 16)
  let rc ← at16 b (startAt + 20)
  if maxCapabilityRules < rc.toNat then none
  else do
    let (rules, p) ← deserializeRules b (startAt + 22) rc.toNat
    let maxLength ← at8 b p
    if maxLength.toNat < 1 ∨ maxCustodyChain < maxLength.toNat then none
    else do
      let (custody, p) ← readCustody b (p + 1) maxLength.toNat
      let stop ← skipAdditionalFields b p
      return (⟨nwid, ts, id, maxLength.toNat, rules, custody⟩, stop - startAt)

/-- The loop of `verify` from record `c` on, with `turns` records left to look at. -/
def verifyFrom (crypto : Crypto) (RR : RuntimeEnvironment) (cap : Capability) (c : Nat) : Nat → Verdict
  | 0 => .ok
  | turns + 1 =>
      let record := cap.custodyAt c
      if c = 0 ∧ (record.toAddress = 0 ∨ record.fromAddress = 0 ∨ record.fromAddress ≠ controllerFor cap.nwid) then .bad
      else if c ≠ 0 ∧ record.toAddress = 0 then .ok
      else if c ≠ 0 ∧ (record.fromAddress = 0 ∨ record.fromAddress ≠ (cap.custodyAt (c - 1)).toAddress) then .bad
      else
        let id := RR.getIdentity record.fromAddress
        if id.isSet then
          if id.verify crypto (cap.serialize true) record.signature then
            verifyFrom crypto RR cap (c + 1) turns
          else .bad
        else .waitingForWhois

def verify (crypto : Crypto) (RR : RuntimeEnvironment) (cap : Capability) : Verdict :=
  if cap.maxCustodyChainLength < 1 ∨ maxCustodyChain < cap.maxCustodyChainLength then .bad
  else verifyFrom crypto RR cap 0 cap.maxCustodyChainLength

end Capability

structure Qualifier where
  id : BitVec 64
  value : BitVec 64
  maxDelta : BitVec 64
deriving DecidableEq, Repr

def Qualifier.bytes (qualifier : Qualifier) : List Byte :=
  wordBytes 8 qualifier.id ++ wordBytes 8 qualifier.value ++ wordBytes 8 qualifier.maxDelta

/-- `ZT_NETWORK_COM_MAX_QUALIFIERS`. -/
abbrev maxQualifiers : Nat := 8

structure CertificateOfMembership where
  qualifiers : List Qualifier
  signedBy : Address
  signature : Signature
deriving DecidableEq, Repr

namespace CertificateOfMembership

def nil : CertificateOfMembership := ⟨[], 0, 0⟩

/-- `operator bool`. -/
def isSet (com : CertificateOfMembership) : Bool := com.qualifiers.length ≠ 0

/-- The value of the first qualifier with this id. -/
def qualifierValue (com : CertificateOfMembership) (id : BitVec 64) : Option (BitVec 64) :=
  (com.qualifiers.find? (fun qualifier => qualifier.id = id)).map Qualifier.value

def timestamp (com : CertificateOfMembership) : BitVec 64 := (com.qualifierValue 0).getD 0

def networkId (com : CertificateOfMembership) : BitVec 64 := (com.qualifierValue 1).getD 0

def issuedTo (com : CertificateOfMembership) : Address :=
  ((com.qualifierValue 2).map Address.ofInt).getD 0

/-- `std::map` filled in order: the last qualifier of an id is the one that stays. -/
def field (com : CertificateOfMembership) (id : BitVec 64) : Option (BitVec 64) :=
  (com.qualifiers.reverse.find? (fun qualifier => qualifier.id = id)).map Qualifier.value

/-- Word `i` of an identity hash in network byte order. -/
def hashWord (hash : BitVec 384) (i : Nat) : BitVec 64 := hash.extractLsb' (64 * (5 - i)) 64

def qualifierAgrees (other : CertificateOfMembership) (qualifier : Qualifier) : Bool :=
  match other.field qualifier.id with
  | none => false
  | some b =>
      let a := qualifier.value
      decide ((if b.toNat ≤ a.toNat then (a - b).toNat else (b - a).toNat) ≤ qualifier.maxDelta.toNat)

def agreesWith (crypto : Crypto) (com other : CertificateOfMembership) (otherIdentity : Identity) : Bool :=
  if com.qualifiers.length = 0 ∨ other.qualifiers.length = 0 then false
  else
    let fullIdentityVerification :=
      com.qualifiers.any (fun qualifier => decide (3 ≤ qualifier.id.toNat ∧ qualifier.id.toNat ≤ 6))
    com.qualifiers.all (qualifierAgrees other) &&
      (!fullIdentityVerification ||
        (List.range 4).all (fun i =>
          decide (other.field (BitVec.ofNat 64 (i + 3)) =
            some (hashWord (otherIdentity.publicKeyHash crypto) i))))

def qualifiersBytes (com : CertificateOfMembership) : List Byte := com.qualifiers.flatMap Qualifier.bytes

def serialize (com : CertificateOfMembership) : List Byte :=
  wordBytes 1 (1 : Byte) ++ wordBytes 2 (BitVec.ofNat 16 com.qualifiers.length) ++ com.qualifiersBytes ++
    com.signedBy.appendTo ++ (if com.signedBy ≠ 0 then wordBytes 96 com.signature else [])

/-- Read `numq` qualifiers in non-decreasing order of id, the last one read having `lastId`. -/
def readQualifiers (b : List Byte) : Nat → Nat → Nat → BitVec 64 → Option (List Qualifier × Nat)
  | p, 0, _, _ => some ([], p)
  | p, numq + 1, room, lastId => do
      let qid ← at64 b p
      if qid.toNat < lastId.toNat then none
      else match room with
        | 0 => none
        | room + 1 => do
            let value ← at64 b (p + 8)
            let maxDelta ← at64 b (p + 16)
            let (qualifiers, stop) ← readQualifiers b (p + 24) numq room qid
            return (⟨qid, value, maxDelta⟩ :: qualifiers, stop)

/-- The signature of an unsigned certificate keeps what its memory held, here zero. -/
def deserialize (b : List Byte) (startAt : Nat) : Option (CertificateOfMembership × Nat) := do
  let version ← at8 b startAt
  if version ≠ 1 then none
  else do
    let numq ← at16 b (startAt + 1)
    let (qualifiers, p) ← readQualifiers b (startAt + 3) numq.toNat maxQualifiers 0
    let signedBy ← Address.readAt b p
    if signedBy ≠ 0 then do
      let signature ← atWord 768 96 b (p + 5)
      return (⟨qualifiers, signedBy, signature⟩, p + 5 + signatureLen - startAt)
    else return (⟨qualifiers, signedBy, 0⟩, p + 5 - startAt)

def verify (crypto : Crypto) (RR : RuntimeEnvironment) (com : CertificateOfMembership) : Verdict :=
  if com.signedBy = 0 ∨ com.signedBy ≠ controllerFor com.networkId ∨
      maxQualifiers < com.qualifiers.length then .bad
  else
    let id := RR.getIdentity com.signedBy
    if id.isSet then if id.verify crypto com.qualifiersBytes com.signature then .ok else .bad
    else .waitingForWhois

end CertificateOfMembership

end ZeroTierNode
