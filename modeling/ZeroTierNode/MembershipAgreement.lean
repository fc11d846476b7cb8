import ZeroTierNode.WireForms
import ZeroTierNode.Library.Entries

/-!
Agreement of certificates of membership, compared with what it is documented to mean,
and the entries of a certificate that its accessors and `agreesWith` look at.
-/

namespace ZeroTierNode.CertificateOfMembership
open Library.Bytes Library.Entries

/-- The certificate comes from `deserialize` and is not empty. -/
def Accepted (com : CertificateOfMembership) : Prop :=
  com.isSet ∧ ∃ b startAt taken, deserialize b startAt = some (com, taken)

/-- A qualifier of this certificate is within its greatest difference of one of the other's. -/
def Near (other : CertificateOfMembership) (qualifier : Qualifier) : Prop :=
  ∃ entry ∈ other.qualifiers, entry.id = qualifier.id ∧
    |(qualifier.value.toNat : Int) - entry.value.toNat| ≤ qualifier.maxDelta.toNat

/-- The ids of identity hash words. -/
def HashId (id : BitVec 64) : Prop := 3 ≤ id.toNat ∧ id.toNat ≤ 6

/-- The hash qualifiers have the words of the identity's public key hash. -/
def CarriesHash (crypto : Crypto) (com : CertificateOfMembership) (identity : Identity) : Prop :=
  ∀ i < 4, ∃ entry ∈ com.qualifiers,
    entry.id = BitVec.ofNat 64 (i + 3) ∧ entry.value = hashWord (identity.publicKeyHash crypto) i

/-- What `agreesWith` is to decide. -/
def Agrees (crypto : Crypto) (com other : CertificateOfMembership) (otherIdentity : Identity) : Prop :=
  (∀ qualifier ∈ com.qualifiers, Near other qualifier) ∧
    ((∃ qualifier ∈ com.qualifiers, HashId qualifier.id) → CarriesHash crypto other otherIdentity)

/-- The entry, with its index, that an accessor stops at. -/
def readEntry (com : CertificateOfMembership) (id : BitVec 64) : Option (Qualifier × Nat) :=
  com.qualifiers.zipIdx.find? fun entry => entry.1.id = id

/-- The entry, with its index, that is in the map of `agreesWith` in the end. -/
def comparedEntry (com : CertificateOfMembership) (id : BitVec 64) : Option (Qualifier × Nat) :=
  last (fun entry => decide (entry.1.id = id)) com.qualifiers.zipIdx

/-- The ids that `timestamp`, `networkId` and `issuedTo` look for. -/
def accessorIds : List (BitVec 64) := [0, 1, 2]

def SameEntries (com : CertificateOfMembership) : Prop :=
  ∀ id ∈ accessorIds, com.readEntry id = com.comparedEntry id

/-- What is read through an accessor is in the entry it stops at. -/
theorem qualifierValue_eq (com : CertificateOfMembership) (id : BitVec 64) :
    com.qualifierValue id = (com.readEntry id).map fun entry => entry.1.value := by
  have entries := @List.find?_map _ _ (fun qualifier : Qualifier => decide (qualifier.id = id)) Prod.fst
    com.qualifiers.zipIdx
  rw [List.zipIdx_map_fst] at entries
  unfold qualifierValue readEntry
  rw [entries, Option.map_map]
  rfl

theorem field_eq (com : CertificateOfMembership) (id : BitVec 64) :
    com.field id = (com.comparedEntry id).map fun entry => entry.1.value := by
  have entries := @List.find?_map _ _ (fun qualifier : Qualifier => decide (qualifier.id = id)) Prod.fst
    com.qualifiers.zipIdx.reverse
  rw [List.map_reverse, List.zipIdx_map_fst] at entries
  unfold field comparedEntry last
  rw [entries, Option.map_map]
  rfl

theorem sameEntries_iff (com : CertificateOfMembership) :
    com.SameEntries ↔ ∀ id ∈ accessorIds, com.qualifiers.countP (fun qualifier => qualifier.id = id) ≤ 1 := by
  have distinct : com.qualifiers.zipIdx.Nodup := by
    apply List.Nodup.of_map Prod.snd
    rw [List.zipIdx_map_snd]
    exact List.nodup_range'
  refine forall₂_congr fun id _ => ?_
  have counted : com.qualifiers.zipIdx.countP (fun entry => decide (entry.1.id = id)) =
      com.qualifiers.countP (fun qualifier => qualifier.id = id) := by
    have moved := List.countP_map (p := fun qualifier : Qualifier => decide (qualifier.id = id)) (f := Prod.fst)
      (l := com.qualifiers.zipIdx)
    rw [List.zipIdx_map_fst] at moved
    exact moved.symm
  rw [← counted]
  exact find?_eq_last_iff distinct

section Fields

variable {com other : CertificateOfMembership} {id : BitVec 64} {value : BitVec 64}

theorem field_mem (found : other.field id = some value) :
    ∃ entry ∈ other.qualifiers, entry.id = id ∧ entry.value = value := by
  obtain ⟨entry, last, same⟩ := Option.map_eq_some_iff.mp found
  obtain ⟨member, holds⟩ := last_some last
  exact ⟨entry, member, of_decide_eq_true holds, same⟩

theorem field_isSome {entry : Qualifier} (member : entry ∈ other.qualifiers) (same : entry.id = id) :
    ∃ value, other.field id = some value := by
  obtain ⟨found, last⟩ := last_isSome (p := fun qualifier : Qualifier => decide (qualifier.id = id)) member
    (decide_eq_true same)
  exact ⟨found.value, Option.map_eq_some_iff.mpr ⟨found, last, rfl⟩⟩

/-- The unsigned subtractions give the exact difference. -/
theorem difference_iff (a b maxDelta : BitVec 64) :
    (if b.toNat ≤ a.toNat then (a - b).toNat else (b - a).toNat) ≤ maxDelta.toNat ↔
      |(a.toNat : Int) - b.toNat| ≤ maxDelta.toNat := by
  by_cases order : b.toNat ≤ a.toNat
  · rw [if_pos order, BitVec.toNat_sub_of_le (BitVec.le_def.mpr order), abs_of_nonneg (by omega)]
    omega
  · rw [if_neg order, BitVec.toNat_sub_of_le (BitVec.le_def.mpr (by omega)), abs_of_neg (by omega)]
    omega

theorem qualifierAgrees_iff (other : CertificateOfMembership) (qualifier : Qualifier) :
    qualifierAgrees other qualifier = true ↔ ∃ value, other.field qualifier.id = some value ∧
      |(qualifier.value.toNat : Int) - value.toNat| ≤ qualifier.maxDelta.toNat := by
  unfold qualifierAgrees
  cases found : other.field qualifier.id with
  | none => simp
  | some value =>
      simp only [Option.some_inj, exists_eq_left', decide_eq_true_eq]
      exact difference_iff ..

theorem agreesWith_iff (crypto : Crypto) (set : com.isSet = true) (otherSet : other.isSet = true)
    (otherIdentity : Identity) :
    com.agreesWith crypto other otherIdentity = true ↔
      (∀ qualifier ∈ com.qualifiers, qualifierAgrees other qualifier = true) ∧
        ((∃ qualifier ∈ com.qualifiers, HashId qualifier.id) →
          ∀ i < 4, other.field (BitVec.ofNat 64 (i + 3)) =
            some (hashWord (otherIdentity.publicKeyHash crypto) i)) := by
  have filled : ¬ (com.qualifiers.length = 0 ∨ other.qualifiers.length = 0) :=
    not_or.mpr ⟨of_decide_eq_true set, of_decide_eq_true otherSet⟩
  unfold agreesWith
  rw [if_neg filled, Bool.and_eq_true, List.all_eq_true]
  refine and_congr_right fun _ => ?_
  by_cases hashed : ∃ qualifier ∈ com.qualifiers, HashId qualifier.id
  · have full : com.qualifiers.any (fun qualifier => decide (3 ≤ qualifier.id.toNat ∧ qualifier.id.toNat ≤ 6)) =
        true := by
      obtain ⟨qualifier, member, hash⟩ := hashed
      exact List.any_eq_true.mpr ⟨qualifier, member, decide_eq_true hash⟩
    simp only [full, Bool.not_true, Bool.false_or, List.all_eq_true, List.mem_range, decide_eq_true_eq, hashed,
      forall_const]
  · have without : com.qualifiers.any (fun qualifier => decide (3 ≤ qualifier.id.toNat ∧ qualifier.id.toNat ≤ 6)) =
        false := by
      rw [List.any_eq_false]
      intro qualifier member holds
      have inRange := of_decide_eq_true holds
      exact hashed ⟨qualifier, member, inRange⟩
    simp only [without, Bool.not_false, Bool.true_or, hashed, false_imp_iff]

end Fields

/-- The other certificate names no id twice where that could matter: not one that the accessors read, and with
different values none at all, those of hash words counting only if the certificate has the identity's hash. -/
structure Unambiguous (crypto : Crypto) (com : CertificateOfMembership) (identity : Identity) : Prop where
  accessors : ∀ id ∈ accessorIds, com.qualifiers.countP (fun qualifier => qualifier.id = id) ≤ 1
  values : ∀ first ∈ com.qualifiers, ∀ second ∈ com.qualifiers, first.id = second.id →
    (HashId first.id → CarriesHash crypto com identity) → first.value = second.value

/-- An entry whose id has one value only is what the map gives. -/
theorem field_of_entry {crypto : Crypto} {com : CertificateOfMembership} {identity : Identity}
    (clear : Unambiguous crypto com identity) {entry : Qualifier} (member : entry ∈ com.qualifiers)
    (counts : HashId entry.id → CarriesHash crypto com identity) : com.field entry.id = some entry.value := by
  obtain ⟨value, found⟩ := field_isSome member rfl
  obtain ⟨last, present, same, equal⟩ := field_mem found
  have alike := clear.values last present entry member same (same ▸ counts)
  rw [found, ← equal, alike]

theorem agreesWith_of_unambiguous {crypto : Crypto} {other : CertificateOfMembership} {otherIdentity : Identity}
    (clear : Unambiguous crypto other otherIdentity) (otherSet : other.isSet = true) {com : CertificateOfMembership}
    (set : com.isSet = true) :
    com.agreesWith crypto other otherIdentity = true ↔ Agrees crypto com other otherIdentity := by
  rw [agreesWith_iff crypto set otherSet]
  constructor
  · intro ⟨all, hash⟩
    constructor
    · intro qualifier member
      obtain ⟨value, found, near⟩ := (qualifierAgrees_iff other qualifier).mp (all qualifier member)
      obtain ⟨entry, present, same, equal⟩ := field_mem found
      exact ⟨entry, present, same, equal ▸ near⟩
    · intro hashed i small
      exact field_mem (hash hashed i small)
  · intro ⟨all, hash⟩
    constructor
    · intro qualifier member
      obtain ⟨entry, present, same, near⟩ := all qualifier member
      have counts : HashId entry.id → CarriesHash crypto other otherIdentity :=
        fun hashId => hash ⟨qualifier, member, same ▸ hashId⟩
      rw [qualifierAgrees_iff, ← same]
      exact ⟨entry.value, field_of_entry clear present counts, near⟩
    · intro hashed i small
      have carries := hash hashed
      obtain ⟨entry, present, same, equal⟩ := carries i small
      rw [← same, ← equal]
      exact field_of_entry clear present fun _ => carries

/-- The certificate with one qualifier that allows no difference. -/
def single (entry : Qualifier) : CertificateOfMembership := ⟨[⟨entry.id, entry.value, 0⟩], 0, 0⟩

theorem single_accepted (entry : Qualifier) : (single entry).Accepted := by
  have canonical : (single entry).Canonical := ⟨Nat.le_add_left 1 7, ⟨Nat.zero_le _, trivial⟩, fun _ => rfl⟩
  exact ⟨rfl, (single entry).serialize, 0, _, recovers canonical _ 0 (stands_self _)⟩

/-- Asked for exactly this value, the other certificate agrees only if the map has it. -/
theorem field_of_agreesWith {crypto : Crypto} {other : CertificateOfMembership} {otherIdentity : Identity}
    (otherSet : other.isSet = true) {entry : Qualifier}
    (agrees : (single entry).agreesWith crypto other otherIdentity = true) :
    other.field entry.id = some entry.value := by
  obtain ⟨value, found, near⟩ := (qualifierAgrees_iff other _).mp
    (((agreesWith_iff crypto rfl otherSet otherIdentity).mp agrees).1 _ (List.mem_singleton.mpr rfl))
  have same : entry.value = value := by
    have zero : (entry.value.toNat : Int) - value.toNat = 0 := abs_nonpos_iff.mp near
    exact BitVec.eq_of_toNat_eq (by omega)
  rw [same]
  exact found

theorem single_agrees {crypto : Crypto} {other : CertificateOfMembership} {otherIdentity : Identity}
    {entry : Qualifier} (member : entry ∈ other.qualifiers)
    (counts : HashId entry.id → CarriesHash crypto other otherIdentity) :
    Agrees crypto (single entry) other otherIdentity := by
  constructor
  · intro qualifier present
    rw [List.mem_singleton.mp present]
    refine ⟨entry, member, rfl, ?_⟩
    rw [sub_self, abs_zero]
    exact Int.natCast_nonneg _
  · intro ⟨qualifier, present, hashId⟩
    rw [List.mem_singleton.mp present] at hashId
    exact counts hashId

/-- Agreement is what it is documented to be, against every certificate, and the accessors read what is compared,
exactly for a certificate that names no id ambiguously. -/
theorem agreesWith_documented_iff (crypto : Crypto) (otherIdentity : Identity)
    (other : { other : CertificateOfMembership // other.Accepted }) :
    ((∀ com : { com : CertificateOfMembership // com.Accepted },
        com.1.agreesWith crypto other.1 otherIdentity = true ↔ Agrees crypto com.1 other.1 otherIdentity) ∧
      other.1.SameEntries) ↔ Unambiguous crypto other.1 otherIdentity := by
  constructor
  · intro ⟨documented, entries⟩
    have exactly : ∀ entry ∈ other.1.qualifiers, (HashId entry.id → CarriesHash crypto other.1 otherIdentity) →
        other.1.field entry.id = some entry.value := by
      intro entry member counts
      have agrees := (documented ⟨single entry, single_accepted entry⟩).mpr (single_agrees member counts)
      exact field_of_agreesWith other.2.1 agrees
    refine ⟨(sameEntries_iff other.1).mp entries, fun first one second two same counts => ?_⟩
    have here := exactly first one counts
    rw [same, exactly second two (same ▸ counts)] at here
    exact (Option.some.inj here).symm
  · intro clear
    exact ⟨fun com => agreesWith_of_unambiguous clear other.2.1 com.2.1, (sameEntries_iff other.1).mpr clear.accessors⟩

/-- Two time stamps in one certificate: the accessor reads 5, and 9 is compared. -/
def twoStamps : CertificateOfMembership := ⟨[⟨0, 5, 0⟩, ⟨0, 9, 0⟩], 0, 0⟩

theorem two_stamps_ambiguous :
    ¬ ∀ (crypto : Crypto) (otherIdentity : Identity) (other : { other : CertificateOfMembership // other.Accepted }),
      (∀ com : { com : CertificateOfMembership // com.Accepted },
          com.1.agreesWith crypto other.1 otherIdentity = true ↔ Agrees crypto com.1 other.1 otherIdentity) ∧
        other.1.SameEntries := by
  intro all
  have canonical : twoStamps.Canonical := ⟨by decide, ⟨Nat.zero_le _, Nat.zero_le _, trivial⟩, fun _ => rfl⟩
  have accepted : twoStamps.Accepted :=
    ⟨rfl, twoStamps.serialize, 0, _, recovers canonical _ 0 (stands_self _)⟩
  have entries := (all ⟨fun _ _ _ => true, fun _ => 0⟩ ⟨7, 1⟩ ⟨twoStamps, accepted⟩).2
  have different : twoStamps.readEntry 0 ≠ twoStamps.comparedEntry 0 := by decide
  exact different (entries 0 (List.mem_cons_self ..))

end ZeroTierNode.CertificateOfMembership
