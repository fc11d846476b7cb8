import ZeroTierNode.Library.Runs
import ZeroTierNode.Membership

/-!
What a `Membership` remembers of revocations, over whole sequences of
`addCredential` calls. The two stores of thresholds are compared with the
revocations that were accepted so far.
-/

namespace ZeroTierNode.RevocationThresholds
open Library.Bytes Library.Runs
open ZeroTierNode.Membership (credentialKey)

inductive AnyCredential
  | com (com : CertificateOfMembership)
  | tag (tag : Tag)
  | capability (cap : Capability)
  | coo (coo : CertificateOfOwnership)
  | revocation (rev : Revocation)

/-- One `addCredential` call and the identities known to the node when it is made. -/
structure AddCall where
  RR : RuntimeEnvironment
  credential : AnyCredential

/-- A membership together with the revocations it has accepted, the latest first. -/
structure History where
  membership : Membership
  accepted : List Revocation

def History.nil : History := ⟨.nil, []⟩

section Step

variable (crypto : Crypto)

/-- The overload of `addCredential` that the credential's type selects. -/
def addCredential (RR : RuntimeEnvironment) (m : Membership) : AnyCredential → AddCredentialResult × Membership
  | .com com => m.addCom crypto RR com
  | .tag tag => m.addTag crypto RR tag
  | .capability cap => m.addCapability crypto RR cap
  | .coo coo => m.addCoo crypto RR coo
  | .revocation rev => m.addRevocation crypto RR rev

def acceptedBy (result : AddCredentialResult) (accepted : List Revocation) : AnyCredential → List Revocation
  | .revocation rev => if result.accepted then rev :: accepted else accepted
  | _ => accepted

def step (history : History) (call : AddCall) : History :=
  let (result, membership) := addCredential crypto call.RR history.membership call.credential
  ⟨membership, acceptedBy result history.accepted call.credential⟩

end Step

/-- Thresholds of the accepted revocations of certificates of membership. -/
def comThresholds (accepted : List Revocation) : List Int :=
  (accepted.filter (fun rev => rev.credentialType = .com)).map (fun rev => rev.threshold.toInt)

/-- Thresholds of the accepted revocations of one credential. -/
def thresholdsOf (accepted : List Revocation) (ct : CredentialType) (id : BitVec 32) : List Int :=
  (accepted.filter (fun rev => rev.credentialType = ct ∧ rev.credentialId = id)).map
    (fun rev => rev.threshold.toInt)

/-- The credential types whose thresholds are stored by key. -/
def Keyed (ct : CredentialType) : Prop := ct = .capability ∨ ct = .tag ∨ ct = .coo

/-- Both threshold stores are the maxima of what was accepted, and no revoked certificate of
membership is honoured on a network that is not public. -/
structure RevocationLaw (crypto : Crypto) (history : History) : Prop where
  com : history.membership.comRevocationThreshold = (comThresholds history.accepted).foldr max 0
  stored : ∀ ct id, Keyed ct →
    history.membership.revocations.lookup (credentialKey ct id) =
      (thresholdsOf history.accepted ct id).max?
  honoured : ∀ rev ∈ history.accepted, rev.credentialType = .com →
    history.membership.com.timestamp.toInt ≤ rev.threshold.toInt →
    ∀ nconf otherNodeIdentity, nconf.isPublic = false →
      history.membership.isAllowedOnNetwork crypto nconf otherNodeIdentity = false

/-- A verified revocation of a tag, capability or certificate of ownership that raises the stored
threshold carries the current COM threshold, and is not negative when nothing is stored yet. -/
def KeepsThresholds (crypto : Crypto) (history : History) (call : AddCall) : Prop :=
  ∀ rev, call.credential = .revocation rev → rev.verify crypto call.RR = .ok →
    Keyed rev.credentialType →
    let m := history.membership
    let key := credentialKey rev.credentialType rev.credentialId
    (m.revocationAt key < rev.threshold.toInt → rev.threshold.toInt = m.comRevocationThreshold) ∧
      (m.revocations.lookup key = none → 0 ≤ rev.threshold.toInt)

theorem not_keyed_com {ct : CredentialType} (type : ct = .com) : ¬ Keyed ct := by
  rw [type]
  rintro (keyed | keyed | keyed) <;> cases keyed

theorem not_keyed_plain {ct : CredentialType} (plain : ct = .null ∨ ct = .revocation) : ¬ Keyed ct := by
  rcases plain with type | type <;> rw [type] <;> rintro (keyed | keyed | keyed) <;> cases keyed

theorem foldr_max_ge {values : List Int} {value : Int} (member : value ∈ values) :
    value ≤ values.foldr max 0 := by
  induction values with
  | nil => cases member
  | cons first rest ih =>
      simp only [List.foldr_cons]
      rcases List.mem_cons.mp member with same | later
      · rw [same]
        exact le_max_left _ _
      · exact le_trans (ih later) (le_max_right _ _)

theorem honoured_of_com (crypto : Crypto) {history : History}
    (com : history.membership.comRevocationThreshold = (comThresholds history.accepted).foldr max 0)
    (rev : Revocation) (member : rev ∈ history.accepted) (type : rev.credentialType = .com)
    (old : history.membership.com.timestamp.toInt ≤ rev.threshold.toInt)
    (nconf : NetworkConfig) (otherNodeIdentity : Identity) (notPublic : nconf.isPublic = false) :
    history.membership.isAllowedOnNetwork crypto nconf otherNodeIdentity = false := by
  have counted : rev.threshold.toInt ∈ comThresholds history.accepted := by
    refine List.mem_map.mpr ⟨rev, List.mem_filter.mpr ⟨member, ?_⟩, rfl⟩
    simpa using type
  have bound := foldr_max_ge counted
  have revoked : ¬ history.membership.comRevocationThreshold < history.membership.com.timestamp.toInt := by
    omega
  simp only [Membership.isAllowedOnNetwork, notPublic, revoked, decide_false, Bool.false_and, Bool.or_false]

/-- The third part of the law follows from the first. -/
theorem revocationLaw_iff (crypto : Crypto) (history : History) :
    RevocationLaw crypto history ↔
      history.membership.comRevocationThreshold = (comThresholds history.accepted).foldr max 0 ∧
      ∀ ct id, Keyed ct → history.membership.revocations.lookup (credentialKey ct id) =
        (thresholdsOf history.accepted ct id).max? := by
  constructor
  · intro law
    exact ⟨law.com, law.stored⟩
  · rintro ⟨com, stored⟩
    exact ⟨com, stored, honoured_of_com crypto com⟩

theorem credentialKey_toNat (ct : CredentialType) (id : BitVec 32) :
    (credentialKey ct id).toNat = ct.toCode.toNat * 2 ^ 32 + id.toNat := by
  have small : ct.toCode.toNat < 2 ^ 32 := by cases ct <;> decide
  have idSmall := id.isLt
  have shifted : (ct.toCode <<< 32).toNat = ct.toCode.toNat <<< 32 := by
    rw [BitVec.toNat_shiftLeft, Nat.shiftLeft_eq]
    exact Nat.mod_eq_of_lt (by omega)
  rw [credentialKey, BitVec.toNat_or, shifted, BitVec.toNat_setWidth, Nat.mod_eq_of_lt (by omega),
    ← Nat.shiftLeft_add_eq_or_of_lt idSmall, Nat.shiftLeft_eq]

theorem credentialKey_injective {ct ct' : CredentialType} {id id' : BitVec 32}
    (same : credentialKey ct id = credentialKey ct' id') : ct = ct' ∧ id = id' := by
  have sameNat := congrArg BitVec.toNat same
  rw [credentialKey_toNat, credentialKey_toNat] at sameNat
  have idSmall := id.isLt
  have idSmall' := id'.isLt
  have sameCode : ct.toCode.toNat = ct'.toCode.toNat := by omega
  constructor
  · cases ct <;> cases ct' <;> first | rfl | simp [CredentialType.toCode] at sameCode
  · exact BitVec.eq_of_toNat_eq (by omega)

section Steps

variable {crypto : Crypto}

/-- Credentials other than revocations leave both threshold stores alone. -/
theorem addCom_thresholds (RR : RuntimeEnvironment) (m : Membership) (com : CertificateOfMembership) :
    (m.addCom crypto RR com).2.comRevocationThreshold = m.comRevocationThreshold ∧
      (m.addCom crypto RR com).2.revocations = m.revocations := by
  unfold Membership.addCom
  dsimp only
  split_ifs
  · exact ⟨rfl, rfl⟩
  · exact ⟨rfl, rfl⟩
  · exact ⟨rfl, rfl⟩
  · cases com.verify crypto RR <;> exact ⟨rfl, rfl⟩

/-- Every outcome of adding a revocation. -/
theorem addRevocation_cases (RR : RuntimeEnvironment) (m : Membership) (rev : Revocation) :
    (rev.verify crypto RR ≠ .ok ∨ rev.credentialType = .null ∨ rev.credentialType = .revocation) ∧
        (m.addRevocation crypto RR rev).1.accepted = false ∧
        (m.addRevocation crypto RR rev).2 = m ∨
      rev.credentialType = .com ∧ (m.addRevocation crypto RR rev).1.accepted = true ∧
        (m.addRevocation crypto RR rev).2 =
          { m with comRevocationThreshold := max rev.threshold.toInt m.comRevocationThreshold } ∨
      rev.verify crypto RR = .ok ∧ Keyed rev.credentialType ∧
        (m.addRevocation crypto RR rev).1.accepted = true ∧
        (m.addRevocation crypto RR rev).2 =
          (m.addCredentialRevocation (credentialKey rev.credentialType rev.credentialId)
            rev.threshold.toInt).2 := by
  unfold Membership.addRevocation
  cases verdict : rev.verify crypto RR with
  | bad => exact .inl ⟨.inl (by simp), rfl, rfl⟩
  | waitingForWhois => exact .inl ⟨.inl (by simp), rfl, rfl⟩
  | ok =>
      have keyed (type : Keyed rev.credentialType) :
          (m.addCredentialRevocation (credentialKey rev.credentialType rev.credentialId)
            rev.threshold.toInt).1.accepted = true := by
        unfold Membership.addCredentialRevocation
        dsimp only
        split <;> rfl
      cases type : rev.credentialType with
      | null => exact .inl ⟨.inr (.inl rfl), rfl, rfl⟩
      | revocation => exact .inl ⟨.inr (.inr rfl), rfl, rfl⟩
      | com =>
          refine .inr (.inl ⟨rfl, ?_⟩)
          dsimp only
          split
          · rename_i raised
            exact ⟨rfl, by rw [max_eq_left (le_of_lt raised)]⟩
          · rename_i kept
            exact ⟨rfl, by rw [max_eq_right (not_lt.mp kept)]⟩
      | capability =>
          have type' : Keyed rev.credentialType := .inl type
          rw [type] at keyed type'
          exact .inr (.inr ⟨rfl, type', keyed type', rfl⟩)
      | tag =>
          have type' : Keyed rev.credentialType := .inr (.inl type)
          rw [type] at keyed type'
          exact .inr (.inr ⟨rfl, type', keyed type', rfl⟩)
      | coo =>
          have type' : Keyed rev.credentialType := .inr (.inr type)
          rw [type] at keyed type'
          exact .inr (.inr ⟨rfl, type', keyed type', rfl⟩)

/-- The two stores after a revocation of a keyed credential. -/
theorem addCredentialRevocation_stores (m : Membership) (key : BitVec 64) (threshold : Int) :
    (m.addCredentialRevocation key threshold).2.comRevocationThreshold =
        (if m.revocationAt key < threshold then threshold else m.comRevocationThreshold) ∧
      (m.addCredentialRevocation key threshold).2.revocations =
        m.revocations.insert key (max threshold (m.revocationAt key)) := by
  unfold Membership.addCredentialRevocation
  dsimp only
  by_cases raises : m.revocationAt key < threshold
  · simp only [if_pos raises, max_eq_left (le_of_lt raises), and_self]
  · simp only [if_neg raises, max_eq_right (not_lt.mp raises), and_self]

theorem comThresholds_cons_com {rev : Revocation} (accepted : List Revocation)
    (type : rev.credentialType = .com) :
    comThresholds (rev :: accepted) = rev.threshold.toInt :: comThresholds accepted := by
  simp [comThresholds, type]

theorem comThresholds_cons_keyed {rev : Revocation} (accepted : List Revocation)
    (type : Keyed rev.credentialType) : comThresholds (rev :: accepted) = comThresholds accepted := by
  have other : rev.credentialType ≠ .com := fun com => not_keyed_com com type
  simp [comThresholds, other]

theorem thresholdsOf_cons_same (rev : Revocation) (accepted : List Revocation) :
    thresholdsOf (rev :: accepted) rev.credentialType rev.credentialId =
      rev.threshold.toInt :: thresholdsOf accepted rev.credentialType rev.credentialId := by
  simp [thresholdsOf]

theorem thresholdsOf_cons_other {rev : Revocation} (accepted : List Revocation) {ct : CredentialType}
    {id : BitVec 32} (other : ¬ (rev.credentialType = ct ∧ rev.credentialId = id)) :
    thresholdsOf (rev :: accepted) ct id = thresholdsOf accepted ct id := by
  simp [thresholdsOf, other]

/-- What a keyed revocation leaves under its own key is the new maximum, unless it is the first
one and negative. -/
theorem stored_same_iff {m : Membership} {accepted : List Revocation} {rev : Revocation}
    (known : m.revocations.lookup (credentialKey rev.credentialType rev.credentialId) =
      (thresholdsOf accepted rev.credentialType rev.credentialId).max?) :
    some (max rev.threshold.toInt
        (m.revocationAt (credentialKey rev.credentialType rev.credentialId))) =
        (thresholdsOf (rev :: accepted) rev.credentialType rev.credentialId).max? ↔
      (m.revocations.lookup (credentialKey rev.credentialType rev.credentialId) = none →
        0 ≤ rev.threshold.toInt) := by
  rw [thresholdsOf_cons_same, List.max?_cons, ← known, Membership.revocationAt]
  cases m.revocations.lookup (credentialKey rev.credentialType rev.credentialId) with
  | none => simp
  | some stored => simp

/-- The thresholds by key are those of the accepted revocations. -/
def Stored (revocations : Revocations) (accepted : List Revocation) : Prop :=
  ∀ ct id, Keyed ct → revocations.lookup (credentialKey ct id) = (thresholdsOf accepted ct id).max?

theorem stored_com {revocations : Revocations} {accepted : List Revocation} (stored : Stored revocations accepted)
    {rev : Revocation} (type : rev.credentialType = .com) : Stored revocations (rev :: accepted) := by
  intro ct id keyed
  have other : ¬ (rev.credentialType = ct ∧ rev.credentialId = id) := by
    rintro ⟨sameType, -⟩
    exact not_keyed_com (sameType.symm.trans type) keyed
  rw [thresholdsOf_cons_other _ other]
  exact stored ct id keyed

/-- A revocation by key leaves the right thresholds exactly if it is not the first one and negative. -/
theorem stored_keyed_iff {m : Membership} {accepted : List Revocation} (stored : Stored m.revocations accepted)
    {rev : Revocation} (keyed : Keyed rev.credentialType) :
    Stored (m.revocations.insert (credentialKey rev.credentialType rev.credentialId)
        (max rev.threshold.toInt (m.revocationAt (credentialKey rev.credentialType rev.credentialId))))
        (rev :: accepted) ↔
      (m.revocations.lookup (credentialKey rev.credentialType rev.credentialId) = none →
        0 ≤ rev.threshold.toInt) := by
  rw [← stored_same_iff (stored rev.credentialType rev.credentialId keyed)]
  constructor
  · intro after
    have here := after rev.credentialType rev.credentialId keyed
    rwa [AList.lookup_insert] at here
  · intro here ct id keyedType
    by_cases sameKey : rev.credentialType = ct ∧ rev.credentialId = id
    · obtain ⟨rfl, rfl⟩ := sameKey
      rw [AList.lookup_insert, here]
    · have otherKey : credentialKey ct id ≠ credentialKey rev.credentialType rev.credentialId := by
        intro clash
        obtain ⟨sameType, sameId⟩ := credentialKey_injective clash
        exact sameKey ⟨sameType.symm, sameId.symm⟩
      rw [AList.lookup_insert_ne otherKey, thresholdsOf_cons_other _ sameKey]
      exact stored ct id keyedType

theorem com_step_law {history : History} {call : AddCall} {rev : Revocation}
    (law : RevocationLaw crypto history) (same : call.credential = .revocation rev)
    (type : rev.credentialType = .com)
    (accepted : (history.membership.addRevocation crypto call.RR rev).1.accepted = true)
    (raised : (history.membership.addRevocation crypto call.RR rev).2 =
      { history.membership with
        comRevocationThreshold := max rev.threshold.toInt history.membership.comRevocationThreshold }) :
    RevocationLaw crypto (step crypto history call) := by
  have after : step crypto history call =
      ⟨(history.membership.addRevocation crypto call.RR rev).2, rev :: history.accepted⟩ := by
    simp only [step, same, addCredential, acceptedBy, accepted, if_true]
  rw [revocationLaw_iff, after, raised]
  dsimp only
  refine ⟨?_, stored_com law.stored type⟩
  rw [comThresholds_cons_com _ type, List.foldr_cons, ← law.com]

theorem keyed_step_iff {history : History} {call : AddCall} {rev : Revocation}
    (law : RevocationLaw crypto history) (same : call.credential = .revocation rev)
    (verified : rev.verify crypto call.RR = .ok) (keyed : Keyed rev.credentialType)
    (accepted : (history.membership.addRevocation crypto call.RR rev).1.accepted = true)
    (effect : (history.membership.addRevocation crypto call.RR rev).2 =
      (history.membership.addCredentialRevocation
        (credentialKey rev.credentialType rev.credentialId) rev.threshold.toInt).2) :
    RevocationLaw crypto (step crypto history call) ↔ KeepsThresholds crypto history call := by
  have stores := addCredentialRevocation_stores history.membership
    (credentialKey rev.credentialType rev.credentialId) rev.threshold.toInt
  have keeps : KeepsThresholds crypto history call ↔
      (history.membership.revocationAt (credentialKey rev.credentialType rev.credentialId) <
          rev.threshold.toInt → rev.threshold.toInt = history.membership.comRevocationThreshold) ∧
        (history.membership.revocations.lookup (credentialKey rev.credentialType rev.credentialId) =
          none → 0 ≤ rev.threshold.toInt) := by
    constructor
    · intro meets
      exact meets rev same verified keyed
    · intro meets other sameCall _ _
      cases same.symm.trans sameCall
      exact meets
  have after : step crypto history call =
      ⟨(history.membership.addCredentialRevocation
        (credentialKey rev.credentialType rev.credentialId) rev.threshold.toInt).2,
        rev :: history.accepted⟩ := by
    simp only [step, same, addCredential, acceptedBy, accepted, effect, if_true]
  rw [revocationLaw_iff, after, keeps]
  dsimp only
  rw [stores.1, stores.2, comThresholds_cons_keyed _ keyed, ← law.com]
  refine and_congr ?_ (stored_keyed_iff law.stored keyed)
  by_cases raises : history.membership.revocationAt
      (credentialKey rev.credentialType rev.credentialId) < rev.threshold.toInt
  · simp only [raises, if_true, true_imp_iff]
  · simp only [raises, if_false, false_imp_iff]

/-- A step that touches neither the stores nor the record of what was accepted. -/
theorem law_of_unchanged {history after : History} (law : RevocationLaw crypto history)
    (com : after.membership.comRevocationThreshold = history.membership.comRevocationThreshold)
    (revocations : after.membership.revocations = history.membership.revocations)
    (accepted : after.accepted = history.accepted) : RevocationLaw crypto after := by
  rw [revocationLaw_iff, com, revocations, accepted]
  exact ⟨law.com, law.stored⟩

theorem keeps_of_other {history : History} {call : AddCall}
    (other : ∀ rev, call.credential ≠ .revocation rev) : KeepsThresholds crypto history call :=
  fun rev same => absurd same (other rev)

/-- A single call keeps the law exactly when it meets the condition. -/
theorem step_law_iff (history : History) (call : AddCall) (law : RevocationLaw crypto history) :
    RevocationLaw crypto (step crypto history call) ↔ KeepsThresholds crypto history call := by
  obtain ⟨RR, credential⟩ := call
  cases credential with
  | com com =>
      have same := @addCom_thresholds crypto RR history.membership com
      exact iff_of_true (law_of_unchanged law same.1 same.2 rfl)
        (keeps_of_other (by intro rev; simp))
  | tag tag => exact iff_of_true (law_of_unchanged law rfl rfl rfl) (keeps_of_other (by intro rev; simp))
  | capability cap =>
      exact iff_of_true (law_of_unchanged law rfl rfl rfl) (keeps_of_other (by intro rev; simp))
  | coo coo => exact iff_of_true (law_of_unchanged law rfl rfl rfl) (keeps_of_other (by intro rev; simp))
  | revocation rev =>
      rcases @addRevocation_cases crypto RR history.membership rev with
        ⟨refused, notAccepted, same⟩ | ⟨type, accepted, raised⟩ | ⟨verified, keyed, accepted, effect⟩
      · refine iff_of_true (law_of_unchanged law ?_ ?_ ?_) ?_
        · simp only [step, addCredential, same]
        · simp only [step, addCredential, same]
        · simp only [step, addCredential, acceptedBy, notAccepted, Bool.false_eq_true, if_false]
        · intro other sameCall verified keyed
          cases sameCall
          rcases refused with bad | plain
          · exact absurd verified bad
          · exact absurd keyed (not_keyed_plain plain)
      · refine iff_of_true (com_step_law law rfl type accepted raised) ?_
        intro other sameCall _ keyed
        cases sameCall
        exact absurd keyed (not_keyed_com type)
      · exact keyed_step_iff law rfl verified keyed accepted effect

end Steps

theorem law_nil (crypto : Crypto) : RevocationLaw crypto .nil := by
  rw [revocationLaw_iff]
  exact ⟨rfl, fun ct id keyed => rfl⟩

/-- Over a whole sequence of calls the threshold stores are right in every state exactly when no
call overwrites the COM threshold with another value or stores 0 for a negative threshold. -/
theorem revocationLaw_throughout_iff (crypto : Crypto) (calls : List AddCall) :
    Throughout (step crypto) (RevocationLaw crypto) .nil calls ↔
      Along (step crypto) (KeepsThresholds crypto) .nil calls :=
  throughout_iff_along step_law_iff (law_nil crypto)

/-- Signatures of the concrete runs below are those the controller made: all of them verify. -/
def signedCrypto : Crypto := ⟨fun _ _ _ => true, fun _ => 0⟩

/-- Node 7, which knows its controller, node 1, and no one else. -/
def controllerKnown : RuntimeEnvironment where
  identity := ⟨7, 0⟩
  peers := fun address => if address = 1 then some ⟨1, 0⟩ else none

/-- Revocation by controller 1 for network 1000005 of credential type `type`. -/
def controllerRevocation (type : Byte) (threshold : BitVec 64) : Revocation :=
  ⟨0, 0, 0x1000005, threshold, 0, 9, 1, type, 0⟩

/-- A tag revocation after a COM revocation puts the COM threshold back from 100 to 1. -/
theorem tag_revocation_lowers_comThreshold :
    ∃ calls, ¬ Throughout (step signedCrypto) (RevocationLaw signedCrypto) .nil calls := by
  refine ⟨[⟨controllerKnown, .revocation (controllerRevocation 1 100)⟩,
    ⟨controllerKnown, .revocation (controllerRevocation 3 1)⟩], ?_⟩
  intro holds
  have law : RevocationLaw signedCrypto _ := holds.2.2
  exact absurd law.com (by decide)

end ZeroTierNode.RevocationThresholds
