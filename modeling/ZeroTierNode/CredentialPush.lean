import ZeroTierNode.CredentialPackets

/-!
The senders of credentials: `Membership::pushCredentials`, which splits what a
member has over several packets, the COM that `Network::_sendUpdatesToMembers`
sends ahead, and the revocations that `Network::addCredential` passes on. A turn of
the loop leaves fewer credentials than it found, in a packet that the handler reads
back as a whole.
-/

namespace ZeroTierNode.CredentialPush
open Library.Bytes Library.Records CredentialPackets CredentialCodec

/-- `Packet(dest, source, v)`: the initialization vector is random and the MAC is not set yet. -/
def newPacket (iv mac : BitVec 64) (dest source : Address) (verb : Byte) : List Byte :=
  wordBytes 8 iv ++ dest.appendTo ++ source.appendTo ++ [0] ++ wordBytes 8 mac ++ [verb]

/-- `Buffer::append`, which throws beyond the capacity of a packet. -/
def append (outp bytes : List Byte) : Option (List Byte) :=
  if outp.length + bytes.length ≤ Packet.maxPacketLength then some (outp ++ bytes) else none

/-- `setAt` of a 16-bit number. -/
def setAt16 (outp : List Byte) (i : Nat) (value : BitVec 16) : List Byte :=
  outp.take i ++ wordBytes 2 value ++ outp.drop (i + 2)

/-- A 16-bit count. -/
def count16 (n : Nat) : List Byte := wordBytes 2 (BitVec.ofNat 16 n)

/-- `sizeof` of the classes. The ABI decides, but a class has room for all that its wire form holds. -/
structure ClassSizes where
  capability : Nat
  tag : Nat
  coo : Nat
  capability_room : 2137 ≤ capability
  tag_room : 135 ≤ tag
  coo_room : 413 ≤ coo
  bounded : capability ≤ 4096 ∧ tag ≤ 4096 ∧ coo ≤ 4096

/-- The loop over the credentials of one kind that are still to be sent: the packet, how many were added to it, and
those that are left. -/
def fill (size : Nat) : List Credential → List Byte → Option (List Byte × Nat × List Credential)
  | [], outp => some (outp, 0, [])
  | credential :: left, outp =>
      if outp.length + size + 16 < Packet.maxPacketLength then do
        let bytes ← credential.serialize
        let outp ← append outp bytes
        let (outp, count, left) ← fill size left outp
        return (outp, count + 1, left)
      else some (outp, 0, credential :: left)

/-- The count is written when the credentials behind it are. -/
def addSection (size : Nat) (credentials : List Credential) (outp : List Byte) :
    Option (List Byte × List Credential) := do
  let countAt := outp.length
  let outp ← append outp [0, 0]
  let (outp, count, left) ← fill size credentials outp
  return (setAt16 outp countAt (BitVec.ofNat 16 count), left)

/-- What `pushCredentials` still has to send. -/
structure Pending where
  sendCom : Bool
  caps : List Credential
  tags : List Credential
  coos : List Credential

def Pending.more (left : Pending) : Bool := left.caps ≠ [] ∨ left.tags ≠ [] ∨ left.coos ≠ [] ∨ left.sendCom

/-- The COM goes into the first packet. -/
def addCom (com : CertificateOfMembership) (left : Pending) (outp : List Byte) : Option (List Byte) :=
  if left.sendCom then append outp com.serialize else some outp

/-- One turn of the outer loop. -/
def buildPacket (sizes : ClassSizes) (com : CertificateOfMembership) (outp : List Byte) (left : Pending) :
    Option (List Byte × Pending) := do
  let outp ← addCom com left outp
  let outp ← append outp [0]
  let (outp, caps) ← addSection sizes.capability left.caps outp
  let (outp, tags) ← addSection sizes.tag left.tags outp
  -- no revocations
  let outp ← append outp (count16 0)
  let (outp, coos) ← addSection sizes.coo left.coos outp
  return (outp, ⟨false, caps, tags, coos⟩)

/-- The outer loop with at most `fuel` looks at its condition, `n` packets having been sent. -/
def pushFrom (sizes : ClassSizes) (lz4 : List Byte → List Byte) (com : CertificateOfMembership)
    (header : Nat → List Byte) : Nat → Nat → Pending → Option (List (List Byte))
  | 0, _, _ => none
  | fuel + 1, n, left =>
      if left.more then do
        let (outp, left) ← buildPacket sizes com (header n) left
        let others ← pushFrom sizes lz4 com header fuel (n + 1) left
        return Packet.compress lz4 outp :: others
      else some []

/-- `pushCredentials`: the packets handed to `Switch::send`, the `n`th with the random and leftover bytes `fresh n`. -/
def pushCredentials (sizes : ClassSizes) (lz4 : List Byte → List Byte) (fresh : Nat → BitVec 64 × BitVec 64)
    (self peerAddress : Address) (nconf : NetworkConfig) (fuel : Nat) : Option (List (List Byte)) :=
  pushFrom sizes lz4 nconf.com (fun n => newPacket (fresh n).1 (fresh n).2 peerAddress self networkCredentials) fuel 0
    ⟨nconf.com.isSet, nconf.capabilities.map .capability, nconf.tags.map .tag,
      nconf.certificatesOfOwnership.map .coo⟩

/-- The COM-only packet. -/
def comPacket (header : List Byte) (com : CertificateOfMembership) : Option (List Byte) :=
  [com.serialize, [0], count16 0, count16 0, count16 0, count16 0].foldlM append header

/-- The packet with one revocation. -/
def revocationPacket (header : List Byte) (rev : Revocation) : Option (List Byte) :=
  [[0], count16 0, count16 0, count16 1, rev.serialize false, count16 0].foldlM append header

/-- The COMs that `_sendUpdatesToMembers` sends to nodes that are not members, so that they can authenticate
multicasts. -/
def comPackets (fresh : Address → BitVec 64 × BitVec 64) (self : Address) (net : Network)
    (alwaysAnnounceTo : List Address) : List (Address × Option (List Byte)) :=
  (alwaysAnnounceTo.filter fun a => net.config.com.isSet ∧ (net.memberships.lookup a).isNone ∧ a ≠ self).map fun a =>
    (a, comPacket (newPacket (fresh a).1 (fresh a).2 a self networkCredentials) net.config.com)

/-- The packets with which `Network::addCredential` passes a new revocation on to the other members. -/
def revocationPackets (crypto : Crypto) (RR : RuntimeEnvironment) (fresh : Address → BitVec 64 × BitVec 64)
    (net : Network) (sentFrom : Address) (rev : Revocation) : List (Address × Option (List Byte)) :=
  let (result, after) := net.addRevocation crypto RR rev
  if result = .acceptedNew ∧ rev.fastPropagate then
    (after.memberships.keys.filter fun a => a ≠ sentFrom ∧ a ≠ rev.signedBy).map fun a =>
      (a, revocationPacket (newPacket (fresh a).1 (fresh a).2 a RR.identity.address networkCredentials) rev)
  else []

/-- The wire form of a credential that has one. -/
def wire (credential : Credential) : List Byte := credential.serialize.getD []

/-- The most that the wire form of a credential takes. -/
def wireLimit : CredentialType → Nat
  | .capability => 2137
  | .tag => 135
  | .coo => 413
  | .revocation => 152
  | .com => 296
  | .null => 0

theorem serialize_eq_wire {credential : Credential} (inArrays : InArrays credential) :
    credential.serialize = some (wire credential) := by
  obtain ⟨bytes, written, -⟩ := deserialize_carried inArrays
  rw [wire, written]
  rfl

theorem wire_recovers {credential : Credential} (inArrays : InArrays credential) :
    Recovers (Credential.deserialize credential.kind) (wire credential) credential.carried := by
  obtain ⟨bytes, written, read⟩ := deserialize_carried inArrays
  rw [wire, written]
  exact read

theorem serializeRule_length_le (rule : Rule) : (serializeRule rule).length ≤ 21 := by
  have field : ruleFieldLen rule.ruleType ≤ 19 := by
    cases rule.ruleType <;> decide
  simp only [serializeRule, List.length_append, wordBytes_length, ruleFieldBytes_length]
  omega

theorem signatureField_length (signature : Signature) : (signatureField signature).length = 99 := by
  simp [signatureField]

theorem capability_wire_length {cap : Capability} (limits : cap.WithinLimits) :
    (cap.serialize false).length ≤ 2137 := by
  have rules := length_flatMap_le cap.rules serializeRule_length_le
  have ruleCount := limits.ruleCount
  have chain : ((cap.custody.take (min cap.maxCustodyChainLength maxCustodyChain)).takeWhile
      (fun record => record.toAddress ≠ 0)).length ≤ 7 := by
    refine (List.takeWhile_prefix _).length_le.trans ?_
    rw [List.length_take]
    have bounded := limits.bounded
    unfold maxCustodyChain at *
    omega
  have one (record : Custody) : record.bytes.length ≤ 109 := by
    simp [Custody.bytes, signatureField_length, Address.appendTo]
  have records := length_flatMap_le ((cap.custody.take (min cap.maxCustodyChainLength maxCustodyChain)).takeWhile
    (fun record => record.toAddress ≠ 0)) one
  simp only [Capability.serialize, Bool.false_eq_true, if_false, List.nil_append, List.length_append,
    wordBytes_length, Address.appendTo, noAdditionalFields, serializeRules, List.length_nil]
  unfold maxCapabilityRules at ruleCount
  omega

theorem coo_wire_length {coo : CertificateOfOwnership} {bytes : List Byte} (few : coo.thingCount.toNat ≤ maxThings)
    (written : coo.serialize false = some bytes) : bytes.length ≤ 413 := by
  have one (thing : Thing) : thing.bytes.length ≤ 17 := by
    simp [Thing.bytes]
  have things := length_flatMap_le (coo.things.take coo.thingCount.toNat) one
  have taken : (coo.things.take coo.thingCount.toNat).length ≤ 16 := by
    rw [List.length_take]
    unfold maxThings at few
    omega
  unfold CertificateOfOwnership.serialize CertificateOfOwnership.thingsBytes at written
  split at written
  · simp only [Option.bind_eq_bind, Option.bind_some, Option.pure_def, Option.some.injEq] at written
    rw [← written]
    simp only [Bool.false_eq_true, if_false, List.nil_append, List.append_nil, List.length_append,
      wordBytes_length, Address.appendTo, noAdditionalFields, signatureField_length]
    omega
  · cases written

theorem com_wire_length {com : CertificateOfMembership} (canonical : com.Canonical) : com.serialize.length ≤ 296 := by
  have one (qualifier : Qualifier) : qualifier.bytes.length ≤ 24 := by
    simp [Qualifier.bytes]
  have qualifiers := length_flatMap_le com.qualifiers one
  have few := canonical.few
  unfold maxQualifiers at few
  have signature : (if com.signedBy ≠ 0 then wordBytes 96 com.signature else []).length ≤ 96 := by
    split
    · rw [wordBytes_length]
    · exact Nat.zero_le _
  simp only [CertificateOfMembership.serialize, CertificateOfMembership.qualifiersBytes, List.length_append,
    wordBytes_length, Address.appendTo] at *
  omega

/-- No wire form is longer than its limit. -/
theorem wire_length_le {credential : Credential} (inArrays : InArrays credential) :
    (wire credential).length ≤ wireLimit credential.kind := by
  have written := serialize_eq_wire inArrays
  cases credential with
  | tag tag =>
      simp [wire, Credential.serialize, Tag.serialize, signatureField_length, Address.appendTo, noAdditionalFields,
        Credential.kind, wireLimit]
  | capability cap => exact capability_wire_length inArrays
  | coo coo => exact coo_wire_length inArrays.2 written
  | revocation rev =>
      simp [wire, Credential.serialize, Revocation.serialize, signatureField_length, Address.appendTo,
        noAdditionalFields, Credential.kind, wireLimit]
  | com com => exact com_wire_length inArrays

/-- A counted section. -/
def counted (credentials : List Credential) : List Byte := count16 credentials.length ++ credentials.flatMap wire

/-- The credentials in a packet, by kind. -/
structure Contents where
  coms : List Credential
  caps : List Credential
  tags : List Credential
  revocations : List Credential
  coos : List Credential

def Contents.all (contents : Contents) : List Credential :=
  contents.coms ++ (contents.caps ++ (contents.tags ++ (contents.revocations ++ contents.coos)))

/-- What stands behind the header. -/
def Contents.body (contents : Contents) : List Byte :=
  contents.coms.flatMap wire ++ ([0] ++ (counted contents.caps ++ (counted contents.tags ++
    (counted contents.revocations ++ counted contents.coos))))

/-- Credentials of one kind, no more than a count can say. -/
structure OfKind (kind : CredentialType) (credentials : List Credential) : Prop where
  each : ∀ credential ∈ credentials, InArrays credential ∧ credential.kind = kind
  few : credentials.length < 2 ^ 16

structure Contents.Sorted (contents : Contents) : Prop where
  coms : OfKind .com contents.coms
  caps : OfKind .capability contents.caps
  tags : OfKind .tag contents.tags
  revocations : OfKind .revocation contents.revocations
  coos : OfKind .coo contents.coos

section Reading

variable {b rest : List Byte} {p : Nat} {kind : CredentialType} {credentials : List Credential}

theorem readMany_written (each : ∀ credential ∈ credentials, InArrays credential ∧ credential.kind = kind)
    (here : Stands (credentials.flatMap wire ++ rest) b p) :
    readMany b kind credentials.length p =
      (credentials.map Credential.carried, .reached (p + (credentials.flatMap wire).length)) := by
  induction credentials generalizing p with
  | nil => rfl
  | cons credential credentials ih =>
      obtain ⟨inArrays, same⟩ := each credential List.mem_cons_self
      rw [List.flatMap_cons, List.append_assoc] at here
      obtain ⟨first, others⟩ := stands_append.mp here
      have read := wire_recovers inArrays b p first
      rw [same] at read
      have later := ih (fun other member => each other (List.mem_cons_of_mem _ member)) others
      rw [List.length_cons, readMany, read]
      dsimp only
      rw [later, List.map_cons, List.flatMap_cons, List.length_append, Nat.add_assoc]

theorem readSections_written {kinds : List CredentialType} (ofKind : OfKind kind credentials)
    (here : Stands (counted credentials ++ rest) b p) (more : kinds ≠ [] → rest ≠ []) :
    readSections b (kind :: kinds) p =
        credentials.map Credential.carried ++ readSections b kinds (p + (counted credentials).length) ∧
      Stands rest b (p + (counted credentials).length) := by
  have behind := (stands_append.mp here).2
  refine ⟨?_, behind⟩
  unfold counted count16 at here
  rw [List.append_assoc] at here
  obtain ⟨count, found⟩ := Buffer.atWord_of_stands (by decide) (by decide) here
  have number : (BitVec.ofNat 16 credentials.length).toNat = credentials.length := by
    rw [BitVec.toNat_ofNat, Nat.mod_eq_of_lt ofKind.few]
  have size : (counted credentials).length = 2 + (credentials.flatMap wire).length := by
    rw [counted, count16, List.length_append, wordBytes_length]
  rw [readSections, Buffer.at16, count]
  dsimp only
  rw [number, readMany_written ofKind.each found, size, ← Nat.add_assoc]
  dsimp only
  rw [if_neg]
  rintro ⟨others, ended⟩
  have inside := behind.inside (more others)
  have positive := List.length_pos_iff.mpr (more others)
  omega

theorem readComs_written {fuel : Nat} (each : ∀ credential ∈ credentials, InArrays credential ∧ credential.kind = .com)
    (here : Stands (credentials.flatMap wire ++ ([0] ++ rest)) b p) (enough : credentials.length < fuel) :
    readComs b fuel p =
      (credentials.map Credential.carried, .reached (p + (credentials.flatMap wire).length)) := by
  have byte {first : Byte} {others : List Byte} {q : Nat} (stands : Stands (first :: others) b q) :
      q < b.length ∧ Packet.byteAt b q = first := by
    have inside := stands.inside (List.cons_ne_nil _ _)
    obtain ⟨after, same⟩ := stands
    rw [List.length_cons] at inside
    refine ⟨by omega, ?_⟩
    rw [Packet.byteAt, List.getD_eq_getElem?_getD, ← Nat.add_zero q, ← List.getElem?_drop, ← same]
    rfl
  induction credentials generalizing fuel p with
  | nil =>
      cases fuel with
      | zero => cases enough
      | succ fuel =>
          rw [readComs, if_neg fun looks => looks.2 (byte here).2]
          rfl
  | cons credential credentials ih =>
      cases fuel with
      | zero => cases enough
      | succ fuel =>
          obtain ⟨inArrays, same⟩ := each credential List.mem_cons_self
          rw [List.flatMap_cons, List.append_assoc] at here
          obtain ⟨first, others⟩ := stands_append.mp here
          have read := wire_recovers inArrays b p first
          rw [same] at read
          have version : p < b.length ∧ Packet.byteAt b p = 1 := by
            cases credential with
            | com com => exact byte first
            | _ => cases same
          have later := ih (fun other member => each other (List.mem_cons_of_mem _ member)) others
            (Nat.lt_of_succ_lt_succ enough)
          rw [readComs, if_pos ⟨version.1, by rw [version.2]; decide⟩, read]
          dsimp only
          rw [later, List.map_cons, List.flatMap_cons, List.length_append, Nat.add_assoc]

/-- Everything that was put into a packet is read from it. -/
theorem credentialsIn_body {header : List Byte} (long : header.length = 28) {contents : Contents}
    (sorted : contents.Sorted) :
    credentialsIn (header ++ contents.body) = contents.all.map Credential.carried := by
  have counted_ne (others : List Credential) (after : List Byte) : counted others ++ after ≠ [] := by
    intro empty
    have lengths := congrArg List.length empty
    rw [counted, count16, List.length_append, List.length_append, wordBytes_length] at lengths
    simp at lengths
  have here : Stands contents.body (header ++ contents.body) 28 := by
    rw [← long, Stands, List.drop_left]
  have size : (header ++ contents.body).length = 28 + contents.body.length := by
    rw [List.length_append, long]
  have coms_ne : ∀ credential ∈ contents.coms, wire credential ≠ [] := by
    intro credential member
    have kind := (sorted.coms.each credential member).2
    cases credential with
    | com com => exact List.cons_ne_nil _ _
    | _ => cases kind
  have enough : contents.coms.length < (header ++ contents.body).length := by
    have written := length_le_written coms_ne
    rw [size, Contents.body, List.length_append]
    omega
  generalize header ++ contents.body = b at here size enough ⊢
  have zero := (stands_append.mp here).2
  have behind := (stands_append.mp zero).2
  rw [List.length_singleton] at behind
  obtain ⟨caps, behindCaps⟩ := readSections_written sorted.caps behind
    (fun (_ : [.tag, .revocation, .coo] ≠ []) => counted_ne _ _)
  obtain ⟨tags, behindTags⟩ := readSections_written sorted.tags behindCaps
    (fun (_ : [.revocation, .coo] ≠ []) => counted_ne _ _)
  rw [← List.append_nil (counted contents.coos)] at behindTags
  obtain ⟨revocations, behindRevocations⟩ := readSections_written sorted.revocations behindTags
    (fun (_ : [.coo] ≠ []) => counted_ne _ _)
  obtain ⟨coos, -⟩ := readSections_written sorted.coos behindRevocations (fun none => absurd rfl none)
  have inside := behind.inside (counted_ne _ _)
  have positive := List.length_pos_iff.mpr (counted_ne contents.caps (counted contents.tags ++
    (counted contents.revocations ++ counted contents.coos)))
  rw [credentialsIn, readComs_written sorted.coms.each here enough]
  dsimp only
  rw [if_pos (by omega), sections, caps, tags, revocations, coos, readSections, List.append_nil, Contents.all]
  simp only [List.map_append]

end Reading

section Building

theorem append_eq {outp bytes : List Byte} (room : outp.length + bytes.length ≤ Packet.maxPacketLength) :
    append outp bytes = some (outp ++ bytes) := by
  rw [append, if_pos room]

theorem wire_ne_nil {credential : Credential} (inArrays : InArrays credential) : wire credential ≠ [] := by
  have written := serialize_eq_wire inArrays
  cases credential with
  | tag tag => exact Tag.serialize_ne_nil tag
  | capability cap => exact Capability.serialize_ne_nil cap
  | coo coo => exact CertificateOfOwnership.serialize_ne_nil written
  | revocation rev => exact List.cons_ne_nil _ _
  | com com => exact List.cons_ne_nil _ _

/-- The loop adds the first of the credentials, as long as there is room for one more of the class and 16 bytes. -/
theorem fill_spec {size limit : Nat} {credentials : List Credential}
    (each : ∀ credential ∈ credentials, InArrays credential ∧ (wire credential).length ≤ size) {outp : List Byte}
    (start : outp.length ≤ limit) (high : 10007 ≤ limit) :
    ∃ taken left, credentials = taken ++ left ∧
      fill size credentials outp = some (outp ++ taken.flatMap wire, taken.length, left) ∧
      (outp ++ taken.flatMap wire).length ≤ limit ∧
      (taken = [] → credentials = [] ∨ Packet.maxPacketLength ≤ outp.length + size + 16) := by
  induction credentials generalizing outp with
  | nil =>
      refine ⟨[], [], rfl, ?_, ?_, fun _ => Or.inl rfl⟩
      · simp [fill]
      · simpa using start
  | cons credential credentials ih =>
      obtain ⟨inArrays, short⟩ := each credential List.mem_cons_self
      rw [fill]
      by_cases room : outp.length + size + 16 < Packet.maxPacketLength
      · have next : (outp ++ wire credential).length ≤ limit := by
          unfold Packet.maxPacketLength at room
          rw [List.length_append]
          omega
        obtain ⟨taken, left, split, filled, bound, -⟩ :=
          ih (fun other member => each other (List.mem_cons_of_mem _ member)) next
        refine ⟨credential :: taken, left, by rw [split, List.cons_append], ?_, ?_, fun none => by cases none⟩
        · rw [if_pos room, serialize_eq_wire inArrays]
          simp only [Option.bind_eq_bind, Option.bind_some]
          rw [append_eq (by omega)]
          simp only [Option.bind_some, filled, Option.pure_def, List.flatMap_cons, List.append_assoc, List.length_cons]
        · rw [List.flatMap_cons, ← List.append_assoc]
          exact bound
      · refine ⟨[], credential :: credentials, rfl, ?_, ?_, fun _ => Or.inr (by omega)⟩
        · rw [if_neg room]
          simp
        · simpa using start

theorem setAt16_count (outp : List Byte) (n : Nat) (rest : List Byte) :
    setAt16 (outp ++ [0, 0] ++ rest) outp.length (BitVec.ofNat 16 n) = outp ++ (count16 n ++ rest) := by
  have before : (outp ++ [0, 0] ++ rest).take outp.length = outp := by
    rw [List.append_assoc, List.take_left]
  have after : (outp ++ [0, 0] ++ rest).drop (outp.length + 2) = rest := by
    have position : (outp ++ [(0 : Byte), 0]).length = outp.length + 2 := List.length_append
    rw [← position, List.drop_left]
  rw [setAt16, before, after, count16, List.append_assoc]

theorem addSection_spec {size limit : Nat} {credentials : List Credential}
    (each : ∀ credential ∈ credentials, InArrays credential ∧ (wire credential).length ≤ size) {outp : List Byte}
    (start : outp.length + 2 ≤ limit) (high : 10007 ≤ limit) (fits : limit ≤ Packet.maxPacketLength) :
    ∃ taken left, credentials = taken ++ left ∧
      addSection size credentials outp = some (outp ++ counted taken, left) ∧ (outp ++ counted taken).length ≤ limit ∧
      (taken = [] → credentials = [] ∨ Packet.maxPacketLength ≤ outp.length + 2 + size + 16) := by
  have longer : (outp ++ [(0 : Byte), 0]).length = outp.length + 2 := List.length_append
  obtain ⟨taken, left, split, filled, bound, stuck⟩ := fill_spec each (longer.le.trans start) high
  rw [longer] at stuck
  refine ⟨taken, left, split, ?_, ?_, stuck⟩
  · have opened : append outp [0, 0] = some (outp ++ [0, 0]) := append_eq (start.trans fits)
    rw [addSection]
    simp only [opened, filled, Option.bind_eq_bind, Option.bind_some, Option.pure_def]
    rw [setAt16_count, counted]
  · rw [List.length_append, longer] at bound
    rw [List.length_append, counted, List.length_append, count16, wordBytes_length, ← Nat.add_assoc]
    exact bound

namespace Pending

variable (com : CertificateOfMembership) (left : Pending)

/-- The COM, if it is still to be sent. -/
def coms : List Credential := if left.sendCom then [.com com] else []

/-- The credentials still to be sent. -/
def all : List Credential := left.coms com ++ (left.caps ++ (left.tags ++ left.coos))

structure Sound : Prop where
  com : left.sendCom → com.Canonical
  caps : ∀ credential ∈ left.caps, InArrays credential ∧ credential.kind = .capability
  tags : ∀ credential ∈ left.tags, InArrays credential ∧ credential.kind = .tag
  coos : ∀ credential ∈ left.coos, InArrays credential ∧ credential.kind = .coo

theorem more_iff : left.more = true ↔ left.all com ≠ [] := by
  obtain ⟨sendCom, caps, tags, coos⟩ := left
  unfold more all Pending.coms
  cases sendCom with
  | true => simp
  | false =>
      simp only [decide_eq_true_eq, Bool.false_eq_true, or_false, if_false, List.nil_append, ne_eq,
        List.append_eq_nil_iff, not_and_or]

end Pending

theorem coms_spec {com : CertificateOfMembership} {left : Pending} (sound : left.Sound com) {header : List Byte}
    (long : header.length = 28) :
    addCom com left header = some (header ++ (left.coms com).flatMap wire) ∧
      OfKind .com (left.coms com) ∧ ((left.coms com).flatMap wire).length ≤ 296 := by
  unfold addCom Pending.coms
  cases pending : left.sendCom with
  | false =>
      refine ⟨?_, ⟨fun credential member => ?_, ?_⟩, ?_⟩
      · simp
      · simp at member
      · simp
      · simp
  | true =>
      have canonical := sound.com pending
      have short := com_wire_length canonical
      have wired : [Credential.com com].flatMap wire = com.serialize := List.append_nil _
      rw [if_pos rfl, if_pos rfl, wired]
      refine ⟨append_eq ?_, ⟨fun credential member => ?_, ?_⟩, short⟩
      · unfold Packet.maxPacketLength
        omega
      · rw [List.mem_singleton] at member
        rw [member]
        exact ⟨canonical, rfl⟩
      · simp

/-- The wire forms of a kind are not longer than the class. -/
theorem sized {kind : CredentialType} {size : Nat} {credentials : List Credential} (room : wireLimit kind ≤ size)
    (each : ∀ credential ∈ credentials, InArrays credential ∧ credential.kind = kind) :
    ∀ credential ∈ credentials, InArrays credential ∧ (wire credential).length ≤ size := by
  intro credential member
  obtain ⟨inArrays, same⟩ := each credential member
  have short := wire_length_le inArrays
  rw [same] at short
  exact ⟨inArrays, short.trans room⟩

/-- What stands in a packet can be counted. -/
theorem ofKind_taken {kind : CredentialType} {credentials taken left : List Credential} {outp : List Byte} {room : Nat}
    (each : ∀ credential ∈ credentials, InArrays credential ∧ credential.kind = kind)
    (split : credentials = taken ++ left) (fits : (outp ++ counted taken).length ≤ room) (small : room < 2 ^ 16) :
    OfKind kind taken ∧ ∀ credential ∈ left, InArrays credential ∧ credential.kind = kind := by
  have ofTaken : ∀ credential ∈ taken, InArrays credential ∧ credential.kind = kind := by
    intro credential member
    exact each credential (by rw [split]; exact List.mem_append_left _ member)
  refine ⟨⟨ofTaken, ?_⟩, fun credential member => each credential (by rw [split]; exact List.mem_append_right _ member)⟩
  have written : taken.length ≤ (taken.flatMap wire).length :=
    length_le_written fun credential member => wire_ne_nil (ofTaken credential member).1
  rw [List.length_append, counted, List.length_append] at fits
  omega

/-- The section of one kind in a packet, and what is left of the kind. -/
theorem addSection_ofKind {kind : CredentialType} {size limit : Nat} {credentials : List Credential}
    (room : wireLimit kind ≤ size) (each : ∀ credential ∈ credentials, InArrays credential ∧ credential.kind = kind)
    {outp : List Byte} (start : outp.length + 2 ≤ limit) (high : 10007 ≤ limit) (fits : limit ≤ Packet.maxPacketLength) :
    ∃ taken left, credentials = taken ++ left ∧
      addSection size credentials outp = some (outp ++ counted taken, left) ∧ (outp ++ counted taken).length ≤ limit ∧
      (taken = [] → credentials = [] ∨ Packet.maxPacketLength ≤ outp.length + 2 + size + 16) ∧
      OfKind kind taken ∧ ∀ credential ∈ left, InArrays credential ∧ credential.kind = kind := by
  obtain ⟨taken, left, split, written, bound, stuck⟩ := addSection_spec (sized room each) start high fits
  have small : limit < 2 ^ 16 := fits.trans_lt (by decide)
  exact ⟨taken, left, split, written, bound, stuck, ofKind_taken each split bound small⟩

/-- One turn of the outer loop: a packet within its bounds that holds some of what was left, and what is left then. -/
theorem buildPacket_spec (sizes : ClassSizes) {com : CertificateOfMembership} {left : Pending}
    (sound : left.Sound com) {header : List Byte} (long : header.length = 28) :
    ∃ (contents : Contents) (after : Pending), buildPacket sizes com header left = some (header ++ contents.body, after) ∧
      contents.Sorted ∧ (header ++ contents.body).length ≤ Packet.maxPacketLength ∧ after.Sound com ∧
      (contents.all ++ after.all com).Perm (left.all com) ∧ (left.all com ≠ [] → contents.all ≠ []) := by
  obtain ⟨capSize, tagSize, cooSize⟩ := sizes.bounded
  have limit : Packet.maxPacketLength = 10024 := rfl
  obtain ⟨comWritten, comKind, comLength⟩ := coms_spec sound long
  have start : (header ++ (left.coms com).flatMap wire).length = 28 + ((left.coms com).flatMap wire).length := by
    rw [List.length_append, long]
  -- the packet as it is before each section
  obtain ⟨beforeCaps, capsAt⟩ : ∃ outp, outp = header ++ (left.coms com).flatMap wire ++ [0] := ⟨_, rfl⟩
  have capsLength : beforeCaps.length = 29 + ((left.coms com).flatMap wire).length := by
    rw [capsAt, List.length_append, start, List.length_singleton]
    omega
  have opened : append (header ++ (left.coms com).flatMap wire) [0] = some beforeCaps := by
    rw [capsAt]
    refine append_eq ?_
    rw [List.length_singleton]
    omega
  obtain ⟨caps, capsLeft, capSplit, capWritten, capBound, capStuck, capKind, capsLeftKind⟩ :=
    @addSection_ofKind .capability _ 10007 _ sizes.capability_room sound.caps beforeCaps (by omega) (by decide) (by decide)
  obtain ⟨beforeTags, tagsAt⟩ : ∃ outp, outp = beforeCaps ++ counted caps := ⟨_, rfl⟩
  rw [← tagsAt] at capWritten capBound
  obtain ⟨tags, tagsLeft, tagSplit, tagWritten, tagBound, tagStuck, tagKind, tagsLeftKind⟩ :=
    @addSection_ofKind .tag _ 10009 _ sizes.tag_room sound.tags beforeTags (by omega) (by decide) (by decide)
  obtain ⟨beforeCoos, coosAt⟩ : ∃ outp, outp = beforeTags ++ counted tags ++ count16 0 := ⟨_, rfl⟩
  have coosLength : beforeCoos.length = (beforeTags ++ counted tags).length + 2 := by
    rw [coosAt, List.length_append, count16, wordBytes_length]
  have noRevocations : append (beforeTags ++ counted tags) (count16 0) = some beforeCoos := by
    rw [coosAt]
    refine append_eq ?_
    rw [count16, wordBytes_length]
    omega
  obtain ⟨coos, coosLeft, cooSplit, cooWritten, cooBound, cooStuck, cooKind, coosLeftKind⟩ :=
    @addSection_ofKind .coo _ 10013 _ sizes.coo_room sound.coos beforeCoos (by omega) (by decide) (by decide)
  have body : header ++ (Contents.mk (left.coms com) caps tags [] coos).body = beforeCoos ++ counted coos := by
    have none : counted [] = count16 0 := List.append_nil _
    simp only [coosAt, tagsAt, capsAt, Contents.body, none, List.append_assoc]
  refine ⟨⟨left.coms com, caps, tags, [], coos⟩, ⟨false, capsLeft, tagsLeft, coosLeft⟩, ?_,
    ⟨comKind, capKind, tagKind, ⟨by simp, by simp⟩, cooKind⟩, ?_, ⟨by simp, capsLeftKind, tagsLeftKind, coosLeftKind⟩,
    ?_, ?_⟩
  · rw [buildPacket, body]
    simp only [comWritten, opened, capWritten, tagWritten, noRevocations, cooWritten, Option.bind_eq_bind,
      Option.bind_some, Option.pure_def]
  · rw [body]
    exact cooBound.trans (by decide)
  · rw [List.perm_iff_count]
    intro credential
    simp only [Contents.all, Pending.all, Pending.coms, capSplit, tagSplit, cooSplit, List.count_append,
      List.count_nil, Bool.false_eq_true, if_false]
    omega
  · intro pending empty
    simp only [Contents.all, List.append_eq_nil_iff] at empty
    obtain ⟨noCom, noCaps, noTags, -, noCoos⟩ := empty
    have two : (counted []).length = 2 := rfl
    rw [noCom, List.flatMap_nil, List.length_nil] at capsLength
    have tagsLength : beforeTags.length = beforeCaps.length + 2 := by
      rw [tagsAt, noCaps, List.length_append, two]
    rw [noTags, List.length_append, two] at coosLength
    have caps_nil : left.caps = [] := (capStuck noCaps).resolve_right (by omega)
    have tags_nil : left.tags = [] := (tagStuck noTags).resolve_right (by omega)
    have coos_nil : left.coos = [] := (cooStuck noCoos).resolve_right (by omega)
    apply pending
    rw [Pending.all, noCom, caps_nil, tags_nil, coos_nil]
    rfl

/-- Enough bytes for a header, of a packet that is not compressed. -/
structure Header (header : List Byte) : Prop where
  long : header.length = 28
  plain : Packet.byteAt header 27 &&& 0x80 = 0

theorem header_of_verb (iv mac : BitVec 64) (dest source : Address) {verb : Byte} (plain : verb &&& 0x80 = 0) :
    Header (newPacket iv mac dest source verb) := by
  have front : (wordBytes 8 iv ++ dest.appendTo ++ source.appendTo ++ [0] ++ wordBytes 8 mac).length = 27 := by
    simp [Address.appendTo]
  constructor
  · rw [newPacket, List.length_append, front]
    rfl
  · rw [newPacket, Packet.byteAt, List.getD_append_right _ _ _ _ front.le, front]
    exact plain

theorem newPacket_header (iv mac : BitVec 64) (dest source : Address) :
    Header (newPacket iv mac dest source networkCredentials) :=
  header_of_verb iv mac dest source (by decide)

theorem Header.compressed {header : List Byte} (sound : Header header) (body : List Byte) :
    Packet.compressed (header ++ body) = false := by
  have verb : Packet.byteAt (header ++ body) 27 = Packet.byteAt header 27 := by
    rw [Packet.byteAt, Packet.byteAt, List.getD_append _ _ _ _ (by rw [sound.long]; decide)]
  rw [Packet.compressed, verb, sound.plain]
  rfl

/-- A packet as it was built, before compression. -/
structure Built where
  header : List Byte
  contents : Contents

namespace Built

def bytes (built : Built) : List Byte := built.header ++ built.contents.body

structure Sound (built : Built) : Prop where
  header : Header built.header
  sorted : built.contents.Sorted
  fits : built.bytes.length ≤ Packet.maxPacketLength
  nonempty : built.contents.all ≠ []

end Built

/-- The loop ends after at most as many turns as there are credentials, and every credential is in one packet. -/
theorem pushFrom_spec (sizes : ClassSizes) (lz4 : List Byte → List Byte) {com : CertificateOfMembership}
    {header : Nat → List Byte} (headers : ∀ n, Header (header n)) (turns : Nat) (n : Nat) {left : Pending}
    (sound : left.Sound com) (enough : (left.all com).length ≤ turns) :
    ∃ built : List Built,
      (∀ fuel, turns < fuel →
        pushFrom sizes lz4 com header fuel n left = some (built.map fun packet => Packet.compress lz4 packet.bytes)) ∧
      (∀ packet ∈ built, packet.Sound) ∧ (built.flatMap fun packet => packet.contents.all).Perm (left.all com) := by
  have ended {n turns : Nat} {left : Pending} (none : left.all com = []) {fuel : Nat} (positive : turns < fuel) :
      pushFrom sizes lz4 com header fuel n left = some [] := by
    cases fuel with
    | zero => cases positive
    | succ fuel => rw [pushFrom, if_neg fun more => (left.more_iff com).mp more none]
  induction turns generalizing n left with
  | zero =>
      have none : left.all com = [] := List.length_eq_zero_iff.mp (Nat.le_zero.mp enough)
      refine ⟨[], fun fuel positive => ended none positive, by simp, ?_⟩
      rw [none]
      exact List.Perm.refl _
  | succ turns ih =>
      by_cases none : left.all com = []
      · refine ⟨[], fun fuel positive => ended none positive, by simp, ?_⟩
        rw [none]
        exact List.Perm.refl _
      · obtain ⟨contents, after, turn, sorted, fits, soundAfter, parts, progress⟩ :=
          buildPacket_spec sizes sound (headers n).long
        have shorter : (after.all com).length ≤ turns := by
          have lengths := parts.length_eq
          have positive := List.length_pos_iff.mpr (progress none)
          rw [List.length_append] at lengths
          omega
        obtain ⟨built, others, each, rest⟩ := ih (n + 1) soundAfter shorter
        refine ⟨⟨header n, contents⟩ :: built, fun fuel positive => ?_, ?_, ?_⟩
        · cases fuel with
          | zero => cases positive
          | succ fuel =>
              rw [pushFrom, if_pos ((left.more_iff com).mpr none), turn]
              simp only [Option.bind_eq_bind, Option.bind_some, others fuel (Nat.lt_of_succ_lt_succ positive),
                Option.pure_def, List.map_cons, Built.bytes]
        · intro packet member
          rcases List.mem_cons.mp member with same | later
          · rw [same]
            exact ⟨headers n, sorted, fits, progress none⟩
          · exact each packet later
        · rw [List.flatMap_cons]
          exact (rest.append_left _).trans parts

end Building

end ZeroTierNode.CredentialPush
