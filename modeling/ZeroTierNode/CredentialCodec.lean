import ZeroTierNode.RuleCodec

/-!
The five kinds of credentials as one type, and what becomes of a sequence of them
that is written one behind the other and read back by kind.
-/

namespace ZeroTierNode
open Library.Bytes Library.Records

inductive Credential
  | tag (tag : Tag)
  | capability (cap : Capability)
  | coo (coo : CertificateOfOwnership)
  | revocation (rev : Revocation)
  | com (com : CertificateOfMembership)
deriving DecidableEq, Repr

namespace Credential

def kind : Credential → CredentialType
  | .tag _ => .tag
  | .capability _ => .capability
  | .coo _ => .coo
  | .revocation _ => .revocation
  | .com _ => .com

/-- The wire form; none where the things of a certificate are counted beyond their array. -/
def serialize : Credential → Option (List Byte)
  | .tag issued => some (issued.serialize false)
  | .capability cap => some (cap.serialize false)
  | .coo owned => owned.serialize false
  | .revocation rev => some (rev.serialize false)
  | .com member => some member.serialize

/-- `deserialize` of the class that the kind names. -/
def deserialize (kind : CredentialType) (b : List Byte) (startAt : Nat) : Option (Credential × Nat) :=
  match kind with
  | .tag => (Tag.deserialize b startAt).map fun read => (.tag read.1, read.2)
  | .capability => (Capability.deserialize b startAt).map fun read => (.capability read.1, read.2)
  | .coo => (CertificateOfOwnership.deserialize b startAt).map fun read => (.coo read.1, read.2)
  | .revocation => (Revocation.deserialize b startAt).map fun read => (.revocation read.1, read.2)
  | .com => (CertificateOfMembership.deserialize b startAt).map fun read => (.com read.1, read.2)
  | .null => none

def verify (crypto : Crypto) (RR : RuntimeEnvironment) : Credential → Verdict
  | .tag issued => issued.verify crypto RR
  | .capability cap => cap.verify crypto RR
  | .coo owned => owned.verify crypto RR
  | .revocation rev => rev.verify crypto RR
  | .com member => member.verify crypto RR

/-- Credentials of the given kinds, one behind the other. -/
def deserializeAll (b : List Byte) : List CredentialType → Nat → Option (List Credential × Nat)
  | [], p => some ([], p)
  | kind :: kinds, p => do
      let (credential, taken) ← deserialize kind b p
      let (credentials, stop) ← deserializeAll b kinds (p + taken)
      return (credential :: credentials, stop)

/-- The rules that a credential brings with it. -/
def rules : Credential → List Rule
  | .capability cap => cap.rules
  | _ => []

/-- What the wire form keeps. -/
def carried : Credential → Credential
  | .capability cap => .capability cap.carried
  | credential => credential

end Credential

namespace CredentialCodec
open RuleCodec

/-- The value of a rule with the members of its own type only. -/
def ownMembers (v : RuleValue) : RuleType → RuleValue
  | .actionPriority => { qosBucket := v.qosBucket }
  | .matchSourceZeroTierAddress | .matchDestZeroTierAddress => { zt := v.zt }
  | type => carriedValue v type

/-- Counts within the arrays of the class, a COM with its qualifiers in order and signed, and no rule with
leftovers of another type in its union. -/
def WellFormed : Credential → Prop
  | .tag _ | .revocation _ => True
  | .capability cap => cap.WithinLimits ∧ ∀ rule ∈ cap.rules, ownMembers rule.v rule.ruleType = rule.v
  | .coo coo => coo.things.length = coo.thingCount.toNat ∧ coo.thingCount.toNat ≤ maxThings
  | .com com =>
      com.qualifiers.length ≤ maxQualifiers ∧ CertificateOfMembership.Ordered 0 com.qualifiers ∧ com.signedBy ≠ 0

/-- A sequence of credentials is read back as it was, whatever stands in front of it and behind it, and every
credential takes as many bytes as were written for it. -/
def ParsedBack (credentials : List Credential) : Prop :=
  ∃ parts, credentials.mapM Credential.serialize = some parts ∧
    ∀ before after, Credential.deserializeAll (before ++ parts.flatten ++ after) (credentials.map Credential.kind)
      before.length = some (credentials, before.length + parts.flatten.length)

/-- Counts within the arrays of the class, and a COM with its qualifiers in order. -/
def InArrays : Credential → Prop
  | .tag _ | .revocation _ => True
  | .capability cap => cap.WithinLimits
  | .coo coo => coo.things.length = coo.thingCount.toNat ∧ coo.thingCount.toNat ≤ maxThings
  | .com com => com.Canonical

theorem WellFormed.inArrays {credential : Credential} (wellFormed : WellFormed credential) : InArrays credential := by
  cases credential with
  | tag tag => trivial
  | capability cap => exact wellFormed.1
  | coo coo => exact wellFormed
  | revocation rev => trivial
  | com com =>
      obtain ⟨few, ordered, signed⟩ := wellFormed
      exact ⟨few, ordered, fun unsigned => absurd unsigned signed⟩

theorem deserialize_carried {credential : Credential} (inArrays : InArrays credential) :
    ∃ bytes, credential.serialize = some bytes ∧
      Recovers (Credential.deserialize credential.kind) bytes credential.carried := by
  cases credential with
  | tag tag =>
      refine ⟨_, rfl, fun b p here => ?_⟩
      simp only [Credential.deserialize, Credential.kind, tag.recovers b p here, Option.map_some, Credential.carried]
  | capability cap =>
      refine ⟨_, rfl, fun b p here => ?_⟩
      simp only [Credential.deserialize, Credential.kind, Capability.recovers_carried inArrays b p here,
        Option.map_some, Credential.carried]
  | coo coo =>
      obtain ⟨filled, few⟩ := inArrays
      have inArray : coo.thingCount.toNat ≤ coo.things.length := by omega
      have counted : coo.Counted := by
        unfold CertificateOfOwnership.Counted
        omega
      obtain ⟨bytes, written⟩ : ∃ bytes, coo.serialize false = some bytes := by
        simp [CertificateOfOwnership.serialize, CertificateOfOwnership.thingsBytes, inArray]
      refine ⟨bytes, written, fun b p here => ?_⟩
      simp only [Credential.deserialize, Credential.kind,
        CertificateOfOwnership.recovers counted written b p here, Option.map_some, Credential.carried]
  | revocation rev =>
      refine ⟨_, rfl, fun b p here => ?_⟩
      simp only [Credential.deserialize, Credential.kind, rev.recovers b p here, Option.map_some, Credential.carried]
  | com com =>
      refine ⟨_, rfl, fun b p here => ?_⟩
      simp only [Credential.deserialize, Credential.kind, CertificateOfMembership.recovers inArrays b p here,
        Option.map_some, Credential.carried]

/-- Every credential is found where the one in front of it ends. -/
theorem deserializeAll_carried {credentials : List Credential}
    (wellFormed : ∀ credential ∈ credentials, WellFormed credential) :
    ∃ parts, credentials.mapM Credential.serialize = some parts ∧
      ∀ b p, Stands parts.flatten b p →
        Credential.deserializeAll b (credentials.map Credential.kind) p =
          some (credentials.map Credential.carried, p + parts.flatten.length) := by
  induction credentials with
  | nil => exact ⟨[], rfl, fun b p _ => rfl⟩
  | cons credential credentials ih =>
      obtain ⟨bytes, written, first⟩ := deserialize_carried (wellFormed credential List.mem_cons_self).inArrays
      obtain ⟨parts, others, later⟩ := ih fun other found => wellFormed other (List.mem_cons_of_mem _ found)
      refine ⟨bytes :: parts, ?_, fun b p here => ?_⟩
      · rw [List.mapM_cons, written, others]
        rfl
      · rw [List.flatten_cons] at here
        obtain ⟨front, behind⟩ := stands_append.mp here
        rw [List.map_cons, Credential.deserializeAll, first b p front]
        simp only [Option.bind_eq_bind, Option.bind_some, later b _ behind, Option.pure_def, List.map_cons,
          List.flatten_cons, List.length_append, Nat.add_assoc]

theorem ownMembers_carried_iff {rule : Rule} (own : ownMembers rule.v rule.ruleType = rule.v) :
    rule.carried = rule ↔ FieldsCarried rule := by
  have values : rule.carried = rule ↔ carriedValue rule.v rule.ruleType = rule.v :=
    ⟨fun same => congrArg Rule.v same, fun same => by rw [Rule.carried, same]⟩
  rw [values, FieldsCarried]
  generalize rule.ruleType = type at own
  cases type with
  | actionPriority =>
      constructor
      · intro same
        exact ⟨fun _ => (congrArg RuleValue.qosBucket same).symm, by simp⟩
      · intro carried
        rw [← own, ownMembers, carried.1 rfl]
        rfl
  | matchSourceZeroTierAddress | matchDestZeroTierAddress =>
      constructor
      · intro same
        exact ⟨by simp, fun _ => (address_kept_iff _).mp (congrArg RuleValue.zt same)⟩
      · intro carried
        have kept := (address_kept_iff _).mpr (carried.2 (by simp))
        rw [carriedValue, kept, ← own]
        rfl
  | _ => exact ⟨fun _ => ⟨by simp, by simp⟩, fun _ => own⟩

theorem map_fixed_iff {α : Type} {f : α → α} {l : List α} : l.map f = l ↔ ∀ x ∈ l, f x = x := by
  have pointwise := @List.map_inj_left _ _ l f id
  rw [List.map_id] at pointwise
  exact pointwise

theorem carried_eq_iff {credential : Credential} (wellFormed : WellFormed credential) :
    credential.carried = credential ↔ ∀ rule ∈ credential.rules, FieldsCarried rule := by
  cases credential with
  | capability cap =>
      have rules : (Credential.capability cap).carried = .capability cap ↔ cap.rules.map Rule.carried = cap.rules :=
        ⟨fun same => congrArg Credential.rules same,
          fun same => by rw [Credential.carried, Capability.carried, same]⟩
      rw [rules, map_fixed_iff]
      exact forall₂_congr fun rule found => ownMembers_carried_iff (wellFormed.2 rule found)
  | _ => simp [Credential.carried, Credential.rules]

theorem parsedBack_iff_carried {credentials : List Credential}
    (wellFormed : ∀ credential ∈ credentials, WellFormed credential) :
    ParsedBack credentials ↔ credentials.map Credential.carried = credentials := by
  obtain ⟨parts, written, read⟩ := deserializeAll_carried wellFormed
  have placed (before after : List Byte) : Stands parts.flatten (before ++ parts.flatten ++ after) before.length := by
    unfold Stands
    rw [List.append_assoc, List.drop_left]
    exact List.prefix_append ..
  constructor
  · rintro ⟨others, again, back⟩
    rw [written] at again
    cases again
    have same := back [] []
    rw [read _ _ (placed [] [])] at same
    exact congrArg Prod.fst (Option.some.inj same)
  · intro same
    refine ⟨parts, written, fun before after => ?_⟩
    rw [read _ _ (placed before after), same]

theorem credentials_parsed_back_iff {credentials : List Credential}
    (wellFormed : ∀ credential ∈ credentials, WellFormed credential) :
    ParsedBack credentials ↔ ∀ credential ∈ credentials, ∀ rule ∈ credential.rules, FieldsCarried rule := by
  rw [parsedBack_iff_carried wellFormed, map_fixed_iff]
  exact forall₂_congr fun credential found => carried_eq_iff (wellFormed credential found)

/-- A capability of network 0x8056c2e21c000001, signed by its controller for node 7. -/
def sampleCapability (rules : List Rule) : Capability where
  nwid := 0x8056c2e21c000001
  ts := 1700000000000
  id := 1
  maxCustodyChainLength := 1
  rules := rules
  custody := [⟨7, 0x8056c2e21c, 5⟩]

theorem sampleCapability_limits (rule : Rule) : (sampleCapability [rule]).WithinLimits where
  ruleCount := (by decide : 1 ≤ 64)
  positive := (by decide : 1 ≤ 1)
  bounded := (by decide : 1 ≤ 7)
  chain := (by decide : 1 ≤ 1)
  holders := by simp [sampleCapability]

theorem priority_capability_changed :
    WellFormed (.capability (sampleCapability [priorityRule])) ∧
      ¬ParsedBack [.capability (sampleCapability [priorityRule])] := by
  have wellFormed : WellFormed (.capability (sampleCapability [priorityRule])) :=
    ⟨sampleCapability_limits priorityRule, by simp only [sampleCapability, List.mem_singleton, forall_eq]; rfl⟩
  refine ⟨wellFormed, fun back => ?_⟩
  rw [parsedBack_iff_carried (by simpa using wellFormed)] at back
  exact absurd back (by decide)

/-- One credential of each kind; the capability accepts frames of ethertype 0x0800. -/
def oneOfEach : List Credential :=
  [.tag ⟨1, 2, 0x8056c2e21c000001, 1700000000000, 7, 0x8056c2e21c, 3⟩,
    .capability (sampleCapability [⟨37, { etherType := 0x0800 }⟩]),
    .coo ⟨0x8056c2e21c000001, 1700000000000, 0, 4, 1, [⟨2, 0x0a000001⟩], 7, 0x8056c2e21c, 6⟩,
    .revocation ⟨8, 1, 0x8056c2e21c000001, 1700000000000, 1, 9, 0x8056c2e21c, 3, 10⟩,
    .com ⟨[⟨0, 1700000000000, 360000⟩, ⟨1, 0x8056c2e21c000001, 0⟩, ⟨2, 7, BitVec.allOnes 64⟩], 0x8056c2e21c, 11⟩]

theorem oneOfEach_wellFormed : ∀ credential ∈ oneOfEach, WellFormed credential := by
  simp only [oneOfEach, List.mem_cons, List.not_mem_nil, or_false, forall_eq_or_imp, forall_eq]
  refine ⟨trivial, ⟨sampleCapability_limits _, ?_⟩, ?_, trivial, ?_⟩
  · simp only [sampleCapability, List.mem_singleton, forall_eq]
    rfl
  · unfold WellFormed
    decide
  · simp only [WellFormed, CertificateOfMembership.Ordered]
    decide

theorem oneOfEach_parsed_back : ParsedBack oneOfEach := by
  refine (credentials_parsed_back_iff oneOfEach_wellFormed).mpr ?_
  simp only [oneOfEach, List.mem_cons, List.not_mem_nil, or_false, forall_eq_or_imp, forall_eq, Credential.rules,
    sampleCapability]
  refine ⟨?_, ?_, ?_, ?_, ?_⟩
  all_goals simp [FieldsCarried, Rule.ruleType, Rule.code, RuleType.ofCode]

end CredentialCodec

end ZeroTierNode
