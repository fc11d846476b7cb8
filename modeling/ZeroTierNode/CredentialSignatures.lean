import Mathlib.Data.List.GetD
import ZeroTierNode.CredentialCodec

/-!
What a signature of a credential vouches for. The signed strings are told apart by
their lengths and, within one kind, field by field. Nothing in them names the
kind, and the strings of capabilities may have any length; nothing in those of
capabilities names the holder.
-/

namespace ZeroTierNode
open Library.Bytes Library.Records

/-- The bytes that are signed: `serialize` with `forSign`, or the qualifiers of a COM. -/
def Credential.signedBytes : Credential → Option (List Byte)
  | .tag issued => some (issued.serialize true)
  | .capability cap => some (cap.serialize true)
  | .coo owned => owned.serialize true
  | .revocation rev => some (rev.serialize true)
  | .com member => some member.qualifiersBytes

namespace CredentialSignatures
open CredentialCodec RuleCodec

section Lengths

theorem tag_length (tag : Tag) : (tag.serialize true).length = 52 := by
  simp [Tag.serialize, signMark, noAdditionalFields, Address.appendTo]

theorem revocation_length (rev : Revocation) : (rev.serialize true).length = 69 := by
  simp [Revocation.serialize, signMark, noAdditionalFields, Address.appendTo]

theorem com_length (com : CertificateOfMembership) : com.qualifiersBytes.length = 24 * com.qualifiers.length :=
  length_flatMap_of_size (fun qualifier => by simp [Qualifier.bytes]) _

end Lengths

/-- The signed bytes of a certificate of ownership whose entries fill their count. -/
theorem coo_signed {coo : CertificateOfOwnership} (filled : coo.things.length = coo.thingCount.toNat) :
    coo.serialize true = some (signMark ++ (wordBytes 8 coo.networkId ++ (wordBytes 8 coo.ts ++
      (wordBytes 8 coo.flags ++ (wordBytes 4 coo.id ++ (wordBytes 2 coo.thingCount ++
      (coo.things.flatMap Thing.bytes ++ (coo.issuedTo.appendTo ++ (coo.signedBy.appendTo ++
      (noAdditionalFields ++ signMark)))))))))) := by
  simp [CertificateOfOwnership.serialize, CertificateOfOwnership.thingsBytes, ← filled]

theorem coo_length {coo : CertificateOfOwnership} (filled : coo.things.length = coo.thingCount.toNat)
    {bytes : List Byte} (signed : coo.serialize true = some bytes) :
    bytes.length = 58 + 17 * coo.thingCount.toNat := by
  have things := length_flatMap_of_size (fun thing => by simp [Thing.bytes] : ∀ thing : Thing, thing.bytes.length = 17)
    coo.things
  rw [coo_signed filled] at signed
  cases signed
  simp only [List.length_append, things, filled, signMark, noAdditionalFields, Address.appendTo, wordBytes_length]
  omega

section Fields

theorem word8_inj {first second : BitVec 64} {rest others : List Byte} :
    wordBytes 8 first ++ rest = wordBytes 8 second ++ others ↔ first = second ∧ rest = others :=
  wordBytes_append_inj (by decide)

theorem word4_inj {first second : BitVec 32} {rest others : List Byte} :
    wordBytes 4 first ++ rest = wordBytes 4 second ++ others ↔ first = second ∧ rest = others :=
  wordBytes_append_inj (by decide)

theorem word2_inj {first second : BitVec 16} {rest others : List Byte} :
    wordBytes 2 first ++ rest = wordBytes 2 second ++ others ↔ first = second ∧ rest = others :=
  wordBytes_append_inj (by decide)

theorem word1_inj {first second : Byte} {rest others : List Byte} :
    wordBytes 1 first ++ rest = wordBytes 1 second ++ others ↔ first = second ∧ rest = others :=
  wordBytes_append_inj (by decide)

theorem address_inj {first second : Address} {rest others : List Byte} :
    first.appendTo ++ rest = second.appendTo ++ others ↔ first = second ∧ rest = others :=
  wordBytes_append_inj (by decide)

theorem thing_inj (first second : Thing) (rest others : List Byte)
    (same : first.bytes ++ rest = second.bytes ++ others) : id first = id second ∧ rest = others := by
  obtain ⟨type, value⟩ := first
  simp only [Thing.bytes, List.append_assoc, word1_inj,
    wordBytes_append_inj (by decide : 128 ≤ 8 * 16)] at same
  obtain ⟨types, values, rests⟩ := same
  exact ⟨by rw [types, values], rests⟩

theorem qualifier_inj (first second : Qualifier) (rest others : List Byte)
    (same : first.bytes ++ rest = second.bytes ++ others) : id first = id second ∧ rest = others := by
  obtain ⟨qid, value, maxDelta⟩ := first
  simp only [Qualifier.bytes, List.append_assoc, word8_inj] at same
  obtain ⟨ids, values, deltas, rests⟩ := same
  exact ⟨by rw [ids, values, deltas], rests⟩

/-- The bytes of a rule determine what is carried of it. -/
theorem rule_inj (first second : Rule) (rest others : List Byte)
    (same : serializeRule first ++ rest = serializeRule second ++ others) :
    first.carried = second.carried ∧ rest = others := by
  simp only [serializeRule, List.append_assoc, word1_inj] at same
  obtain ⟨types, -, fields⟩ := same
  have type : first.ruleType = second.ruleType := by
    unfold Rule.ruleType Rule.code
    rw [types]
  obtain ⟨values, rests⟩ := List.append_inj fields (by rw [ruleFieldBytes_length, ruleFieldBytes_length, type])
  refine ⟨?_, rests⟩
  have firstRead := readRuleField_of_stands (stands_self (ruleFieldBytes first.v first.ruleType))
  have secondRead := readRuleField_of_stands (stands_self (ruleFieldBytes second.v second.ruleType))
  rw [values, type, secondRead] at firstRead
  rw [Rule.carried, Rule.carried, types, type, Option.some.inj firstRead]

end Fields

section Alike

theorem tag_alike {first second : Tag} (same : first.serialize true = second.serialize true) :
    { first with signature := second.signature } = second := by
  simp only [Tag.serialize, if_true, List.nil_append, List.append_assoc, List.append_cancel_left_eq, word8_inj,
    word4_inj, address_inj, and_true] at same
  obtain ⟨networkId, ts, id, value, issuedTo, signedBy⟩ := same
  rw [networkId, ts, id, value, issuedTo, signedBy]

theorem revocation_alike {first second : Revocation} (same : first.serialize true = second.serialize true) :
    { first with signature := second.signature } = second := by
  simp only [Revocation.serialize, if_true, List.nil_append, List.append_assoc, List.append_cancel_left_eq, word8_inj,
    word4_inj, word1_inj, address_inj, and_true] at same
  obtain ⟨id, networkId, credentialId, threshold, flags, target, signedBy, type⟩ := same
  rw [id, networkId, credentialId, threshold, flags, target, signedBy, type]

theorem coo_alike {first second : CertificateOfOwnership} (firstFilled : first.things.length = first.thingCount.toNat)
    (secondFilled : second.things.length = second.thingCount.toNat)
    (same : first.serialize true = second.serialize true) :
    { first with signature := second.signature } = second := by
  rw [coo_signed firstFilled, coo_signed secondFilled, Option.some.injEq] at same
  simp only [List.append_cancel_left_eq, word8_inj, word4_inj, word2_inj] at same
  obtain ⟨networkId, ts, flags, id, thingCount, same⟩ := same
  obtain ⟨things, rests⟩ := flatMap_append_inj thing_inj (by rw [firstFilled, secondFilled, thingCount]) same
  simp only [address_inj, and_true] at rests
  obtain ⟨issuedTo, signedBy⟩ := rests
  rw [List.map_id, List.map_id] at things
  rw [networkId, ts, flags, id, thingCount, things, issuedTo, signedBy]

theorem com_alike {first second : CertificateOfMembership} (same : first.qualifiersBytes = second.qualifiersBytes) :
    first.qualifiers = second.qualifiers := by
  have lengths := congrArg List.length same
  rw [com_length, com_length] at lengths
  have count : first.qualifiers.length = second.qualifiers.length := by omega
  have padded : first.qualifiers.flatMap Qualifier.bytes ++ [] = second.qualifiers.flatMap Qualifier.bytes ++ [] := by
    rw [List.append_nil, List.append_nil]
    exact same
  have qualifiers := (flatMap_append_inj qualifier_inj count padded).1
  rwa [List.map_id, List.map_id] at qualifiers

/-- The fields of a capability that its signatures cover; the rules as far as the codec carries them. -/
structure CapabilityAlike (first second : Capability) : Prop where
  nwid : first.nwid = second.nwid
  ts : first.ts = second.ts
  id : first.id = second.id
  maxCustodyChainLength : first.maxCustodyChainLength = second.maxCustodyChainLength
  rules : first.rules.map Rule.carried = second.rules.map Rule.carried

theorem capability_alike {first second : Capability} (firstLimits : first.WithinLimits)
    (secondLimits : second.WithinLimits) (same : first.serialize true = second.serialize true) :
    CapabilityAlike first second := by
  simp only [Capability.serialize, if_true, List.nil_append, List.append_assoc, List.append_cancel_left_eq, word8_inj,
    word4_inj, word2_inj] at same
  obtain ⟨nwid, ts, id, counts, same⟩ := same
  have count : first.rules.length = second.rules.length := by
    have fewFirst := firstLimits.ruleCount
    have fewSecond := secondLimits.ruleCount
    have limit : maxCapabilityRules = 64 := rfl
    have values := congrArg BitVec.toNat counts
    rw [BitVec.toNat_ofNat, BitVec.toNat_ofNat] at values
    omega
  obtain ⟨rules, rests⟩ := flatMap_append_inj rule_inj count same
  rw [word1_inj] at rests
  refine ⟨nwid, ts, id, ?_, rules⟩
  have shortFirst := firstLimits.bounded
  have shortSecond := secondLimits.bounded
  have limit : maxCustodyChain = 7 := rfl
  have values := congrArg BitVec.toNat rests.1
  rw [BitVec.toNat_ofNat, BitVec.toNat_ofNat] at values
  omega

end Alike

section Overlap

/-- The octet in front of the length of additional fields. -/
theorem last_octet {front other tail : List Byte} {octet : Byte} {signedBy : Address}
    (same : front ++ (wordBytes 1 octet ++ tail) = other ++ (signedBy.appendTo ++ tail)) :
    signedBy.setWidth 8 = octet := by
  have single : wordBytes 1 octet = [octet] := by
    rw [wordBytes_concat, bigEndian, List.nil_append, BitVec.setWidth_eq]
  rw [← List.append_assoc, ← List.append_assoc, List.append_cancel_right_eq, single, Address.appendTo,
    wordBytes_concat, ← List.append_assoc] at same
  exact (List.append_inj' same rfl).2 |> List.cons.inj |>.1.symm

theorem ordered_ge {lastId : BitVec 64} {qualifiers : List Qualifier}
    (ordered : CertificateOfMembership.Ordered lastId qualifiers) :
    ∀ qualifier ∈ qualifiers, lastId.toNat ≤ qualifier.id.toNat := by
  induction qualifiers generalizing lastId with
  | nil => simp
  | cons first qualifiers ih =>
      intro qualifier found
      rcases List.mem_cons.mp found with same | later
      · rw [same]
        exact ordered.1
      · exact Nat.le_trans ordered.1 (ih ordered.2 qualifier later)

/-- A COM whose first qualifier has the marker as its id names no network, so no signer fits. -/
theorem marked_com_bad {com : CertificateOfMembership} (ordered : CertificateOfMembership.Ordered 0 com.qualifiers)
    {rest : List Byte} (same : com.qualifiersBytes = signMark ++ rest) (crypto : Crypto) (RR : RuntimeEnvironment) :
    com.verify crypto RR = .bad := by
  have nowhere : com.networkId = 0 := by
    unfold CertificateOfMembership.networkId CertificateOfMembership.qualifierValue
    unfold CertificateOfMembership.qualifiersBytes at same
    cases present : com.qualifiers with
    | nil => rfl
    | cons first qualifiers =>
        rw [present] at ordered same
        rw [List.flatMap_cons, Qualifier.bytes, List.append_assoc, List.append_assoc, signMark, word8_inj] at same
        have large := @ordered_ge first.id (first :: qualifiers) ⟨Nat.le_refl _, ordered.2⟩
        rw [same.1] at large
        have missing : (first :: qualifiers).find? (fun qualifier => decide (qualifier.id = 1)) = none := by
          rw [List.find?_eq_none]
          intro qualifier found one
          have atLeast := large qualifier found
          rw [of_decide_eq_true one] at atLeast
          exact absurd atLeast (by decide)
        rw [missing]
        rfl
  have none : controllerFor 0 = 0 := by decide
  unfold CertificateOfMembership.verify
  rw [nowhere, none]
  by_cases unsigned : com.signedBy = 0
  · rw [if_pos (.inl unsigned)]
  · rw [if_pos (.inr (.inl unsigned))]

/-- Four zero bytes and an id are a network id without its upper half. -/
theorem small_nwid {nwid : BitVec 64} {id : BitVec 32} {rest others : List Byte}
    (same : wordBytes 8 nwid ++ rest = wordBytes 4 (0 : BitVec 32) ++ (wordBytes 4 id ++ others)) :
    nwid.toNat < 2 ^ 32 := by
  rw [← List.append_assoc] at same
  have words := (List.append_inj same (by simp)).1
  have value : bigEndianValue (wordBytes 8 nwid) = nwid.toNat := by
    rw [wordBytes, bigEndianValue_bigEndian]
    omega
  have zeros : wordBytes 4 (0 : BitVec 32) = List.replicate 4 0 := by decide
  have small : bigEndianValue (wordBytes 4 (0 : BitVec 32) ++ wordBytes 4 id) = id.toNat := by
    rw [zeros, bigEndianValue, List.foldl_append, show (List.replicate 4 (0 : Byte)).foldl
      (fun value byte => value * 256 + byte.toNat) 0 = 0 from by decide]
    have read := bigEndianValue_bigEndian 4 id.toNat
    rw [bigEndianValue] at read
    rw [wordBytes, read]
    omega
  rw [← value, words, small]
  omega

/-- What a capability whose signed bytes are those of a credential of another kind has in common with it. -/
def Overlaps (cap : Capability) : Credential → Prop
  | .tag issued => issued.signedBy.setWidth 8 = BitVec.ofNat 8 cap.maxCustodyChainLength
  | .coo owned => owned.signedBy.setWidth 8 = BitVec.ofNat 8 cap.maxCustodyChainLength
  | .revocation rev => rev.type = BitVec.ofNat 8 cap.maxCustodyChainLength ∧ cap.nwid.toNat < 2 ^ 32
  | .com member => ∀ crypto RR, member.verify crypto RR = .bad
  | .capability _ => False

theorem capability_starts (cap : Capability) :
    ∃ rest, cap.serialize true = signMark ++ (wordBytes 8 cap.nwid ++ rest) := by
  simp only [Capability.serialize, if_true, List.nil_append, List.append_assoc]
  exact ⟨_, rfl⟩

theorem capability_ends (cap : Capability) :
    ∃ front, cap.serialize true =
      front ++ (wordBytes 1 (BitVec.ofNat 8 cap.maxCustodyChainLength) ++ (noAdditionalFields ++ signMark)) := by
  refine ⟨signMark ++ wordBytes 8 cap.nwid ++ wordBytes 8 cap.ts ++ wordBytes 4 cap.id ++
    wordBytes 2 (BitVec.ofNat 16 cap.rules.length) ++ serializeRules cap.rules, ?_⟩
  simp only [Capability.serialize, if_true, List.nil_append, List.append_assoc]

theorem capability_overlaps {cap : Capability} {other : Credential} (wellFormed : WellFormed other)
    (foreign : other.kind ≠ .capability) (same : some (cap.serialize true) = other.signedBytes) :
    Overlaps cap other := by
  obtain ⟨rest, start⟩ := capability_starts cap
  obtain ⟨front, ending⟩ := capability_ends cap
  cases other with
  | tag issued =>
      have bytes := Option.some.inj same
      rw [ending] at bytes
      apply @last_octet front (signMark ++ wordBytes 8 issued.networkId ++ wordBytes 8 issued.ts ++
        wordBytes 4 issued.id ++ wordBytes 4 issued.value ++ issued.issuedTo.appendTo)
      rw [bytes]
      simp only [Tag.serialize, if_true, List.nil_append, List.append_assoc]
  | capability other => exact absurd rfl foreign
  | coo owned =>
      rw [ending, Credential.signedBytes, coo_signed wellFormed.1, Option.some.injEq] at same
      apply @last_octet front (signMark ++ wordBytes 8 owned.networkId ++ wordBytes 8 owned.ts ++
        wordBytes 8 owned.flags ++ wordBytes 4 owned.id ++ wordBytes 2 owned.thingCount ++
        owned.things.flatMap Thing.bytes ++ owned.issuedTo.appendTo)
      rw [same]
      simp only [List.append_assoc]
  | revocation rev =>
      have bytes := Option.some.inj same
      constructor
      · have octets : front ++ wordBytes 1 (BitVec.ofNat 8 cap.maxCustodyChainLength) ++
            (noAdditionalFields ++ signMark) = signMark ++ wordBytes 4 (0 : BitVec 32) ++ wordBytes 4 rev.id ++
              wordBytes 8 rev.networkId ++ wordBytes 4 (0 : BitVec 32) ++ wordBytes 4 rev.credentialId ++
              wordBytes 8 rev.threshold ++ wordBytes 8 rev.flags ++ rev.target.appendTo ++ rev.signedBy.appendTo ++
              wordBytes 1 rev.type ++ (noAdditionalFields ++ signMark) := by
          rw [List.append_assoc, ← ending, bytes]
          simp only [Revocation.serialize, if_true, List.nil_append, List.append_assoc]
        have last := (List.append_inj' (List.append_cancel_right octets) rfl).2
        rw [← wordOf_wordBytes 1 rev.type (by decide), ← last, wordOf_wordBytes 1 _ (by decide)]
      · rw [start] at bytes
        simp only [Revocation.serialize, if_true, List.nil_append, List.append_assoc,
          List.append_cancel_left_eq] at bytes
        exact small_nwid bytes
  | com member =>
      have bytes := Option.some.inj same
      rw [start] at bytes
      exact marked_com_bad wellFormed.2.1 bytes.symm

end Overlap

/-- The qualifiers of a COM are signed; its signer follows from them where it is the controller. -/
structure ComAlike (first second : CertificateOfMembership) : Prop where
  qualifiers : first.qualifiers = second.qualifiers
  signedBy : first.signedBy = controllerFor first.networkId → second.signedBy = controllerFor second.networkId →
    first.signedBy = second.signedBy

/-- Two credentials for which one signature may stand. -/
def SignedAlike : Credential → Credential → Prop
  | .tag first, .tag second => { first with signature := second.signature } = second
  | .coo first, .coo second => { first with signature := second.signature } = second
  | .revocation first, .revocation second => { first with signature := second.signature } = second
  | .com first, .com second => ComAlike first second
  | .capability first, .capability second => CapabilityAlike first second
  | .capability cap, other => Overlaps cap other
  | other, .capability cap => Overlaps cap other
  | _, _ => False

theorem comAlike_of_same {first second : CertificateOfMembership}
    (same : first.qualifiersBytes = second.qualifiersBytes) : ComAlike first second := by
  have qualifiers := com_alike same
  refine ⟨qualifiers, fun firstSigner secondSigner => ?_⟩
  rw [firstSigner, secondSigner]
  unfold CertificateOfMembership.networkId CertificateOfMembership.qualifierValue
  rw [qualifiers]

/-- The length of what is signed for a credential that is no capability tells its kind. -/
theorem kind_of_length {first second : Credential} {bytes : List Byte} (firstWellFormed : WellFormed first)
    (secondWellFormed : WellFormed second) (firstPlain : first.kind ≠ .capability)
    (secondPlain : second.kind ≠ .capability) (firstSigned : first.signedBytes = some bytes)
    (secondSigned : second.signedBytes = some bytes) : first.kind = second.kind := by
  have lengths (credential : Credential) (wellFormed : WellFormed credential)
      (signed : credential.signedBytes = some bytes) :
      match credential.kind with
      | .tag => bytes.length = 52
      | .revocation => bytes.length = 69
      | .com => ∃ count, bytes.length = 24 * count ∧ count ≤ 8
      | .coo => ∃ count, bytes.length = 58 + 17 * count ∧ count ≤ 16
      | .capability | .null => True := by
    cases credential with
    | tag issued =>
        cases signed
        exact tag_length issued
    | capability cap => trivial
    | coo owned => exact ⟨_, coo_length wellFormed.1 signed, wellFormed.2⟩
    | revocation rev =>
        cases signed
        exact revocation_length rev
    | com member =>
        cases signed
        exact ⟨_, com_length member, wellFormed.1⟩
  have one := lengths first firstWellFormed firstSigned
  have two := lengths second secondWellFormed secondSigned
  cases first <;> cases second <;>
    simp only [Credential.kind, ne_eq, not_true_eq_false, reduceCtorEq] at one two firstPlain secondPlain ⊢ <;>
    omega

theorem signedBytes_exist {credential : Credential} (wellFormed : WellFormed credential) :
    ∃ bytes, credential.signedBytes = some bytes := by
  cases credential with
  | coo owned => exact ⟨_, coo_signed wellFormed.1⟩
  | _ => exact ⟨_, rfl⟩

/-- Equal signed bytes belong to credentials that are alike. -/
theorem signed_bytes_alike {first second : Credential} (firstWellFormed : WellFormed first)
    (secondWellFormed : WellFormed second) (same : first.signedBytes = second.signedBytes) :
    SignedAlike first second := by
  by_cases firstPlain : first.kind = .capability
  · cases first with
    | capability cap =>
        cases second with
        | capability other => exact capability_alike firstWellFormed.1 secondWellFormed.1 (Option.some.inj same)
        | _ => exact capability_overlaps secondWellFormed nofun same
    | _ => cases firstPlain
  · by_cases secondPlain : second.kind = .capability
    · cases second with
      | capability cap =>
          have overlaps := capability_overlaps firstWellFormed firstPlain same.symm
          cases first with
          | capability other => exact absurd rfl firstPlain
          | _ => exact overlaps
      | _ => cases secondPlain
    · obtain ⟨bytes, signed⟩ := signedBytes_exist firstWellFormed
      have kinds := kind_of_length firstWellFormed secondWellFormed firstPlain secondPlain signed (same ▸ signed)
      cases first <;> cases second <;> simp only [Credential.kind, reduceCtorEq] at kinds
      case tag.tag => exact tag_alike (Option.some.inj same)
      case capability.capability => exact absurd rfl firstPlain
      case coo.coo => exact coo_alike firstWellFormed.1 secondWellFormed.1 same
      case revocation.revocation => exact revocation_alike (Option.some.inj same)
      case com.com => exact comAlike_of_same (Option.some.inj same)

/-- A tag of network 0xa1b2c3d401000001 for node 01001f05c0: its value, holder and signer spell three rules. -/
def spellingTag : Tag := ⟨1, 0x00030100, 0xa1b2c3d401000001, 1700000000000, 0x01001f05c0, 0xa1b2c3d401, 9⟩

/-- The capability with these rules, of which the first accepts every frame. -/
def spelledCapability : Capability where
  nwid := 0xa1b2c3d401000001
  ts := 1700000000000
  id := 1
  maxCustodyChainLength := 1
  rules := [⟨1, {}⟩, ⟨1, {}⟩, ⟨31, { ipv4Ip := 0xc0a1b2c3, ipv4Mask := 0xd4 }⟩]
  custody := [⟨0x01001f05c0, 0xa1b2c3d401, 9⟩]

/-- Signatures that verify for the bytes of the tag and for no others. -/
def tagCrypto : Crypto := ⟨fun _ data _ => decide (data = spellingTag.serialize true), fun _ => 0⟩

/-- The controller is known. -/
def controllerKnown : RuntimeEnvironment where
  identity := ⟨0x0000000007, 1⟩
  peers := fun a => if a = 0xa1b2c3d401 then some ⟨0xa1b2c3d401, 2⟩ else none

theorem spelled_wellFormed : WellFormed (.capability spelledCapability) := by
  refine ⟨⟨?_, ?_, ?_, ?_, ?_⟩, ?_⟩
  all_goals decide

theorem spelled_same :
    Credential.signedBytes (.tag spellingTag) = Credential.signedBytes (.capability spelledCapability) := by
  decide +kernel

/-- The signature of a tag is one of a capability that accepts every frame. -/
theorem tag_signature_verifies_capability :
    WellFormed (.tag spellingTag) ∧ WellFormed (.capability spelledCapability) ∧
      Credential.signedBytes (.tag spellingTag) = Credential.signedBytes (.capability spelledCapability) ∧
      Credential.verify tagCrypto controllerKnown (.tag spellingTag) = .ok ∧
      Credential.verify tagCrypto controllerKnown (.capability spelledCapability) = .ok := by
  refine ⟨trivial, spelled_wellFormed, spelled_same, ?_, ?_⟩
  all_goals decide +kernel

theorem spelling_tag_overlaps : SignedAlike (.tag spellingTag) (.capability spelledCapability) :=
  signed_bytes_alike trivial spelled_wellFormed spelled_same

section Custody

/-- The other capability differs in the addresses of custody records only. -/
def Readdressed (cap other : Capability) : Prop :=
  other = { cap with custody := other.custody } ∧
    other.custody.map Custody.signature = cap.custody.map Custody.signature

/-- Other addresses in the custody are accepted only where they make a difference to what was signed. -/
def HolderBound (crypto : Crypto) (RR : RuntimeEnvironment) (cap : Capability) : Prop :=
  ∀ other, Readdressed cap other → other.custody ≠ cap.custody → other.verify crypto RR = .ok →
    other.serialize true ≠ cap.serialize true

/-- The records up to the last holder among the first `room`, and those behind it. -/
structure Chain (room : Nat) (custody front : List Custody) (last : Custody) (behind : List Custody) : Prop where
  split : custody = front ++ last :: behind
  short : front.length < room
  held : ∀ record ∈ front, record.toAddress ≠ 0
  holder : last.toAddress ≠ 0
  ended : front.length + 1 < room → (behind.headD ⟨0, 0, 0⟩).toAddress = 0

theorem exists_chain {room : Nat} {custody : List Custody} (positive : 0 < room)
    (first : (custody.headD ⟨0, 0, 0⟩).toAddress ≠ 0) :
    ∃ front last behind, Chain room custody front last behind := by
  induction custody generalizing room with
  | nil => exact absurd rfl first
  | cons record behind ih =>
      by_cases more : 1 < room ∧ (behind.headD ⟨0, 0, 0⟩).toAddress ≠ 0
      · obtain ⟨front, last, rest, chain⟩ := @ih (room - 1) (by omega) more.2
        refine ⟨record :: front, last, rest, ?_, ?_, ?_, chain.holder, ?_⟩
        · rw [List.cons_append, ← chain.split]
        · have short := chain.short
          rw [List.length_cons]
          omega
        · intro other found
          rcases List.mem_cons.mp found with same | later
          · rw [same]
            exact first
          · exact chain.held other later
        · intro inside
          rw [List.length_cons] at inside
          exact chain.ended (by omega)
      · refine ⟨[], record, behind, rfl, positive, by simp, first, fun inside => ?_⟩
        by_contra held
        exact more ⟨inside, held⟩

/-- The loop of `issuedTo` stops behind the last holder. -/
theorem Chain.holders {room : Nat} {custody front behind : List Custody} {last : Custody}
    (chain : Chain room custody front last behind) :
    (custody.take room).takeWhile (fun record => record.toAddress ≠ 0) = front ++ [last] := by
  obtain ⟨split, short, held, holder, ended⟩ := chain
  subst split
  induction front generalizing room with
  | nil =>
      cases room with
      | zero => cases short
      | succ spare =>
          rw [List.nil_append, List.take_succ_cons, List.takeWhile_cons, if_pos (decide_eq_true holder)]
          cases behind with
          | nil => simp
          | cons next behind =>
              cases spare with
              | zero => simp
              | succ spare =>
                  have free : next.toAddress = 0 := ended (by simp)
                  simp [free]
  | cons record front ih =>
      cases room with
      | zero => cases short
      | succ spare =>
          have later := ih (Nat.lt_of_succ_lt_succ short)
            (fun other found => held other (List.mem_cons_of_mem _ found))
            (fun inside => ended (Nat.succ_lt_succ inside))
          rw [List.cons_append, List.take_succ_cons, List.takeWhile_cons,
            if_pos (decide_eq_true (held record List.mem_cons_self)), later]
          rfl

theorem Chain.issuedTo {cap : Capability} {front behind : List Custody} {last : Custody}
    (chain : Chain maxCustodyChain cap.custody front last behind) : cap.issuedTo = last.toAddress := by
  unfold Capability.issuedTo
  rw [chain.holders, List.getLast?_concat]
  rfl

/-- One record that the loop of `verify` goes past. -/
structure RecordChecked (crypto : Crypto) (RR : RuntimeEnvironment) (cap : Capability) (c : Nat) : Prop where
  holder : (cap.custodyAt c).toAddress ≠ 0
  giver : (cap.custodyAt c).fromAddress ≠ 0
  handed : (cap.custodyAt c).fromAddress =
    if c = 0 then controllerFor cap.nwid else (cap.custodyAt (c - 1)).toAddress
  known : (RR.getIdentity (cap.custodyAt c).fromAddress).isSet = true
  signed : (RR.getIdentity (cap.custodyAt c).fromAddress).verify crypto (cap.serialize true)
    (cap.custodyAt c).signature = true

/-- A turn of the loop of `verify` that leads to acceptance ends the chain or checks a record. -/
theorem verifyFrom_ok_iff (crypto : Crypto) (RR : RuntimeEnvironment) (cap : Capability) (c turns : Nat) :
    cap.verifyFrom crypto RR c (turns + 1) = .ok ↔
      (c ≠ 0 ∧ (cap.custodyAt c).toAddress = 0) ∨
        (RecordChecked crypto RR cap c ∧ cap.verifyFrom crypto RR (c + 1) turns = .ok) := by
  have looked (next : Verdict) :
      (if (RR.getIdentity (cap.custodyAt c).fromAddress).isSet then
        if (RR.getIdentity (cap.custodyAt c).fromAddress).verify crypto (cap.serialize true)
          (cap.custodyAt c).signature then next else .bad
        else .waitingForWhois) = Verdict.ok ↔
      (RR.getIdentity (cap.custodyAt c).fromAddress).isSet = true ∧
        (RR.getIdentity (cap.custodyAt c).fromAddress).verify crypto (cap.serialize true)
          (cap.custodyAt c).signature = true ∧ next = .ok := by
    split
    · split <;> simp_all
    · simp_all
  have checked : RecordChecked crypto RR cap c ↔
      (cap.custodyAt c).toAddress ≠ 0 ∧ (cap.custodyAt c).fromAddress ≠ 0 ∧
        (cap.custodyAt c).fromAddress =
          (if c = 0 then controllerFor cap.nwid else (cap.custodyAt (c - 1)).toAddress) ∧
        (RR.getIdentity (cap.custodyAt c).fromAddress).isSet = true ∧
        (RR.getIdentity (cap.custodyAt c).fromAddress).verify crypto (cap.serialize true)
          (cap.custodyAt c).signature = true := by
    constructor
    · rintro ⟨holder, giver, handed, known, signed⟩
      exact ⟨holder, giver, handed, known, signed⟩
    · rintro ⟨holder, giver, handed, known, signed⟩
      exact ⟨holder, giver, handed, known, signed⟩
  rw [Capability.verifyFrom, checked]
  dsimp only
  by_cases first : c = 0
  · rw [if_pos first]
    by_cases issued : (cap.custodyAt c).toAddress ≠ 0 ∧ (cap.custodyAt c).fromAddress ≠ 0 ∧
        (cap.custodyAt c).fromAddress = controllerFor cap.nwid
    · rw [if_neg (by tauto), if_neg (by tauto), if_neg (by tauto), looked]
      tauto
    · rw [if_pos (by tauto)]
      simp only [reduceCtorEq, false_iff]
      tauto
  · rw [if_neg (fun both => first both.1), if_neg first]
    by_cases ends : (cap.custodyAt c).toAddress = 0
    · rw [if_pos ⟨first, ends⟩]
      tauto
    · rw [if_neg (fun both => ends both.2)]
      by_cases handed : (cap.custodyAt c).fromAddress ≠ 0 ∧
          (cap.custodyAt c).fromAddress = (cap.custodyAt (c - 1)).toAddress
      · rw [if_neg (by tauto), looked]
        tauto
      · rw [if_pos (by tauto)]
        simp only [reduceCtorEq, false_iff]
        tauto

/-- The capability presented as issued to someone else. -/
def presentedBy (cap : Capability) (front : List Custody) (last : Custody) (behind : List Custody)
    (holder : Address) : Capability :=
  { cap with custody := front ++ { last with toAddress := holder } :: behind }

section Presented

variable {cap : Capability} {front behind : List Custody} {last : Custody} {holder : Address}
  (chain : Chain maxCustodyChain cap.custody front last behind)
include chain

theorem Chain.presentedBy (held : holder ≠ 0) :
    Chain maxCustodyChain (presentedBy cap front last behind holder).custody front
      { last with toAddress := holder } behind :=
  ⟨rfl, chain.short, chain.held, held, chain.ended⟩

theorem readdressed_presentedBy : Readdressed cap (presentedBy cap front last behind holder) := by
  refine ⟨rfl, ?_⟩
  rw [chain.split]
  simp [presentedBy]

theorem custodyAt_presentedBy (i : Nat) :
    (presentedBy cap front last behind holder).custodyAt i =
      if i = front.length then { cap.custodyAt i with toAddress := holder } else cap.custodyAt i := by
  unfold Capability.custodyAt presentedBy
  rw [chain.split]
  dsimp only
  rcases Nat.lt_trichotomy i front.length with before | same | after
  · rw [if_neg (by omega), List.getD_append _ _ _ _ before, List.getD_append _ _ _ _ before]
  · rw [if_pos same, same, List.getD_append_right _ _ _ _ (Nat.le_refl _),
      List.getD_append_right _ _ _ _ (Nat.le_refl _), Nat.sub_self]
    rfl
  · obtain ⟨further, distance⟩ : ∃ further, i - front.length = further + 1 := ⟨i - front.length - 1, by omega⟩
    rw [if_neg (by omega), List.getD_append_right _ _ _ _ (by omega), List.getD_append_right _ _ _ _ (by omega),
      distance]
    rfl

/-- Behind the last holder `verify` finds a free record, unless it does not look that far. -/
theorem free_behind (inside : front.length + 1 < maxCustodyChain) :
    (cap.custodyAt (front.length + 1)).toAddress = 0 := by
  unfold Capability.custodyAt
  rw [chain.split, List.getD_append_right _ _ _ _ (by omega), Nat.add_sub_cancel_left]
  have ended := chain.ended inside
  cases behind with
  | nil => rfl
  | cons next behind => exact ended

theorem held_last : (cap.custodyAt front.length).toAddress = last.toAddress := by
  unfold Capability.custodyAt
  rw [chain.split, List.getD_append_right _ _ _ _ (Nat.le_refl _), Nat.sub_self]
  rfl

/-- No check of the loop sees the new holder: it is signed by nobody, and the next record is free. -/
theorem verifyFrom_presentedBy (held : holder ≠ 0) (crypto : Crypto) (RR : RuntimeEnvironment) {c turns : Nat}
    (bounded : c + turns ≤ maxCustodyChain) (accepted : cap.verifyFrom crypto RR c turns = .ok) :
    (presentedBy cap front last behind holder).verifyFrom crypto RR c turns = .ok := by
  induction turns generalizing c with
  | zero => rfl
  | succ turns ih =>
      have here := @custodyAt_presentedBy cap front behind last holder chain c
      have message : (presentedBy cap front last behind holder).serialize true = cap.serialize true := rfl
      have givers : ((presentedBy cap front last behind holder).custodyAt c).fromAddress =
          (cap.custodyAt c).fromAddress := by
        rw [here]
        split <;> rfl
      have signatures : ((presentedBy cap front last behind holder).custodyAt c).signature =
          (cap.custodyAt c).signature := by
        rw [here]
        split <;> rfl
      rw [verifyFrom_ok_iff] at accepted ⊢
      rcases accepted with ⟨later, free⟩ | ⟨checked, rest⟩
      · refine .inl ⟨later, ?_⟩
        rw [here, if_neg]
        · exact free
        · intro same
          rw [same, held_last chain] at free
          exact chain.holder free
      · refine .inr ⟨⟨?_, ?_, ?_, ?_, ?_⟩, ih (by omega) rest⟩
        · rw [here]
          split
          · exact held
          · exact checked.holder
        · rw [givers]
          exact checked.giver
        · rw [givers, checked.handed]
          by_cases first : c = 0
          · rw [if_pos first, if_pos first]
            rfl
          · rw [if_neg first, if_neg first, custodyAt_presentedBy chain, if_neg]
            intro same
            have position : c = front.length + 1 := by omega
            have free := free_behind chain (by omega)
            rw [← position] at free
            exact checked.holder free
        · rw [givers]
          exact checked.known
        · rw [givers, signatures, message]
          exact checked.signed

end Presented

theorem first_held {crypto : Crypto} {RR : RuntimeEnvironment} {cap : Capability}
    (accepted : cap.verify crypto RR = .ok) : (cap.custody.headD ⟨0, 0, 0⟩).toAddress ≠ 0 := by
  have first : cap.custody.headD ⟨0, 0, 0⟩ = cap.custodyAt 0 := by
    unfold Capability.custodyAt
    cases cap.custody <;> rfl
  unfold Capability.verify at accepted
  split at accepted
  · cases accepted
  · obtain ⟨turns, same⟩ : ∃ turns, cap.maxCustodyChainLength = turns + 1 :=
      ⟨cap.maxCustodyChainLength - 1, by omega⟩
    rw [same, verifyFrom_ok_iff] at accepted
    rw [first]
    rcases accepted with ⟨later, -⟩ | ⟨checked, -⟩
    · exact absurd rfl later
    · exact checked.holder

/-- Whoever holds an accepted capability can make it out to any other address. -/
theorem presented_to_anyone {crypto : Crypto} {RR : RuntimeEnvironment} {cap : Capability}
    (accepted : cap.verify crypto RR = .ok) {holder : Address} (held : holder ≠ 0) :
    ∃ other, Readdressed cap other ∧ other.verify crypto RR = .ok ∧ other.issuedTo = holder := by
  obtain ⟨front, last, behind, chain⟩ := @exists_chain maxCustodyChain _ (by decide) (first_held accepted)
  refine ⟨presentedBy cap front last behind holder, readdressed_presentedBy chain, ?_,
    (chain.presentedBy held).issuedTo⟩
  unfold Capability.verify at accepted ⊢
  have lengths : (presentedBy cap front last behind holder).maxCustodyChainLength = cap.maxCustodyChainLength := rfl
  rw [lengths]
  split at accepted
  · cases accepted
  · rename_i bounds
    rw [if_neg bounds]
    exact verifyFrom_presentedBy chain held crypto RR (by omega) accepted

theorem holder_never_bound {crypto : Crypto} {RR : RuntimeEnvironment} {cap : Capability}
    (accepted : cap.verify crypto RR = .ok) :
    ¬HolderBound crypto RR cap ∧ ∀ holder : Address, holder ≠ 0 →
      ∃ other, Readdressed cap other ∧ other.verify crypto RR = .ok ∧ other.issuedTo = holder := by
  refine ⟨fun bound => ?_, fun holder held => presented_to_anyone accepted held⟩
  obtain ⟨holder, held, new⟩ : ∃ holder : Address, holder ≠ 0 ∧ holder ≠ cap.issuedTo := by
    by_cases one : cap.issuedTo = 1
    · exact ⟨2, by decide, by rw [one]; decide⟩
    · exact ⟨1, by decide, Ne.symm one⟩
  obtain ⟨other, readdressed, taken, issued⟩ := presented_to_anyone accepted held
  refine bound other readdressed ?_ taken ?_
  · intro same
    have unchanged := readdressed.1
    rw [same] at unchanged
    rw [unchanged] at issued
    exact new issued.symm
  · rw [readdressed.1]
    rfl

/-- A capability to accept every frame, issued to node 7 and not to be handed on. -/
def issuedToSeven : Capability := sampleCapability [⟨1, {}⟩]

/-- The same records, with node 8 in the place of node 7. -/
def presentedByEight : Capability := { issuedToSeven with custody := [⟨8, 0x8056c2e21c, 5⟩] }

/-- The signature 5 of key 2 is one of the bytes of this capability and of no others. -/
def sevenCrypto : Crypto where
  eccVerify := fun key data signature =>
    decide (key = 2) && decide (data = issuedToSeven.serialize true) && decide (signature = 5)
  sha384 := fun _ => 0

def sampleControllerKnown : RuntimeEnvironment where
  identity := ⟨9, 1⟩
  peers := fun a => if a = 0x8056c2e21c then some ⟨0x8056c2e21c, 2⟩ else none

theorem capability_presented_by_another :
    issuedToSeven.verify sevenCrypto sampleControllerKnown = .ok ∧ issuedToSeven.issuedTo = 7 ∧
      Readdressed issuedToSeven presentedByEight ∧
      presentedByEight.verify sevenCrypto sampleControllerKnown = .ok ∧ presentedByEight.issuedTo = 8 ∧
      ¬HolderBound sevenCrypto sampleControllerKnown issuedToSeven := by
  have taken : presentedByEight.verify sevenCrypto sampleControllerKnown = .ok := by decide +kernel
  have readdressed : Readdressed issuedToSeven presentedByEight := ⟨rfl, rfl⟩
  refine ⟨by decide +kernel, by decide, readdressed, taken, by decide, fun bound => ?_⟩
  exact bound presentedByEight readdressed (by decide) taken rfl

theorem seven_presented_by_eight :
    ∃ other, Readdressed issuedToSeven other ∧ other.verify sevenCrypto sampleControllerKnown = .ok ∧
      other.issuedTo = 8 :=
  (holder_never_bound (by decide +kernel)).2 8 (by decide)

end Custody

end CredentialSignatures

end ZeroTierNode
