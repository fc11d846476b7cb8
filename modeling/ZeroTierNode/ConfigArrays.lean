import ZeroTierNode.WireForms

/-!
The arrays of a configuration while `fromDictionary` fills them. Five of the seven
loops look at the size of their array; the loops over capabilities and tags do not,
so everything stays inside the arrays exactly when the dictionary holds no more of
those records than there is room for.
-/

namespace ZeroTierNode
open Library Library.Bytes Library.Records

/-- The count of the array once the element is stored. -/
def ArrayWrite.count (write : ArrayWrite) : Nat := write.index + 1

/-- Element and count are within the size of the array. -/
def ArrayWrite.Inside (limits : Limits) (write : ArrayWrite) : Prop :=
  write.index < limits.size write.array ∧ write.count ≤ limits.size write.array

namespace Parse

variable {α β : Type} (limits : Limits)

/-- Every element that is written to lies inside its array. -/
def Inside (parse : Parse α) : Prop := ∀ write ∈ parse.writes, write.Inside limits

theorem inside_bind (first : Parse α) (next : α → Parse β) : Inside limits (first >>= next) ↔
    Inside limits first ∧ ∀ value, first.result = some value → Inside limits (next value) := by
  change Inside limits (Parse.bind first next) ↔ _
  unfold Parse.bind
  cases done : first.result with
  | none => simp [Inside]
  | some value => simp [Inside, or_imp, forall_and]

theorem inside_pure (value : α) : Inside limits (Pure.pure value) := by
  intro write found
  cases found

theorem inside_plain (result : Option α) : Inside limits (plain result) := by
  intro write found
  cases found

theorem inside_require (condition : Prop) [Decidable condition] : Inside limits (require condition) := by
  intro write found
  cases found

theorem inside_fill (array : ConfigArray) (touched : Nat) (result : Option α) :
    Inside limits (fill array touched result) ↔ touched ≤ limits.size array := by
  unfold Inside fill
  simp only [List.mem_map, List.mem_range, ArrayWrite.Inside, ArrayWrite.count]
  constructor
  · intro inside
    by_contra beyond
    have last := inside ⟨array, limits.size array⟩ ⟨limits.size array, by omega, rfl⟩
    exact absurd last.1 (Nat.lt_irrefl _)
  · rintro enough write ⟨index, touchedIndex, rfl⟩
    dsimp only
    omega

end Parse

namespace NetworkConfig
open Parse

variable {capacity : Nat} (limits : Limits) (order : SortOrder) (d : Dictionary capacity)

theorem inside_certificatesOfOwnership : Inside limits (readCertificatesOfOwnership limits d) := by
  apply (inside_fill limits _ _ _).mpr
  exact Nat.min_le_left _ _

theorem inside_specialists : Inside limits (readSpecialists limits d) := by
  apply (inside_fill limits _ _ _).mpr
  exact Nat.min_le_left _ _

/-- A loop that looks at its array's size never leaves it, not even with the record that throws. -/
theorem inside_bounded {α : Type} (array : ConfigArray) (k : ConfigKey)
    (read : List Byte → Nat → Option (α × Nat)) : Inside limits (readBounded limits d array k read) := by
  apply (inside_fill limits _ _ _).mpr
  cases d.getBuffer k.key with
  | none => exact Nat.zero_le _
  | some tmp =>
      dsimp only
      have length := @readRecords_length _ read tmp (limits.size array) 0
      cases finished : (readRecords read tmp (limits.size array) 0).2 with
      | true => simpa using length
      | false =>
          have room := readRecords_unfinished finished
          rw [if_neg Bool.false_ne_true]
          omega

/-- Nothing in front of the capabilities makes reading fail: the dictionary names a network and a member,
has a current version, and its certificate of membership, if there is one, can be read. -/
def ReachesCapabilities : Prop :=
  d.getUI ConfigKey.networkId.key 0 ≠ 0 ∧ Address.ofInt (d.getUI ConfigKey.issuedTo.key 0) ≠ 0 ∧
    6 ≤ (d.getUI ConfigKey.version.key 0).toNat ∧
    ∀ tmp, d.value ConfigKey.com.key = some tmp → (CertificateOfMembership.deserialize tmp 0).isSome

theorem readCom_isSome : (readCom d).isSome ↔
    ∀ tmp, d.value ConfigKey.com.key = some tmp → (CertificateOfMembership.deserialize tmp 0).isSome := by
  unfold readCom
  rw [Dictionary.getBuffer_eq]
  cases d.value ConfigKey.com.key with
  | none => simp
  | some tmp => simp

/-- At most `most` records of a kind can be read one after another from the value of a key. -/
def HoldsAtMost {α : Type} (k : ConfigKey) (read : List Byte → Nat → Option (α × Nat)) (most : Nat) : Prop :=
  ∀ tmp, d.value k.key = some tmp → ¬HoldsRecords read tmp (most + 1) 0

theorem recordsOf_length {α : Type} (k : ConfigKey) {read : List Byte → Nat → Option (α × Nat)}
    (progress : Progresses read) (most : Nat) :
    (recordsOf d k read List.length).1.length ≤ most ↔ HoldsAtMost d k read most := by
  unfold recordsOf HoldsAtMost
  rw [Dictionary.getBuffer_eq]
  cases d.value k.key with
  | none => simp
  | some tmp =>
      have count := readRecords_count progress (Nat.sub_le tmp.length 0) (most + 1)
      simp only [Option.some.injEq, forall_eq', ← count]
      omega

theorem inside_fromDictionary : Inside limits (fromDictionary limits order d) ↔
    (ReachesCapabilities d → (recordsOf d .capabilities Capability.deserialize List.length).1.length ≤
        limits.capabilities ∧
      (recordsOf d .tags Tag.deserialize List.length).1.length ≤ limits.tags) := by
  rw [ReachesCapabilities, ← readCom_isSome, Option.isSome_iff_exists]
  simp only [fromDictionary, inside_bind, inside_require, inside_plain, inside_pure, require_result,
    inside_certificatesOfOwnership, inside_specialists, readRoutes, readStaticIps, readRules, inside_bounded,
    readCapabilities, readTags, inside_fill, Limits.size, plain_result, fill_result, true_and, and_true, implies_true]
  constructor
  · rintro inside ⟨network, issued, version, com, read⟩
    obtain ⟨capabilities, tags⟩ := inside () network () issued () version com read
    exact ⟨capabilities, tags _ rfl⟩
  · intro inside _ network _ issued _ version com read
    obtain ⟨capabilities, tags⟩ := inside ⟨network, issued, version, com, read⟩
    exact ⟨capabilities, fun _ _ => tags⟩

/-- Reading a dictionary stays inside the arrays of the configuration exactly when it ends before the
capabilities, or neither they nor the tags are more than their arrays hold. -/
theorem array_writes_inside_iff :
    (∀ write ∈ (fromDictionary limits order d).writes, write.Inside limits) ↔
      (ReachesCapabilities d →
        HoldsAtMost d .capabilities Capability.deserialize limits.capabilities ∧
          HoldsAtMost d .tags Tag.deserialize limits.tags) := by
  have inside := inside_fromDictionary limits order d
  rw [recordsOf_length d .capabilities Capability.progresses, recordsOf_length d .tags Tag.progresses] at inside
  exact inside

/-- A capability without rules and without a chain of custody: 30 bytes. -/
def bareCapability : Capability := ⟨0, 0, 0, 1, [], []⟩

theorem bareCapability_canonical : bareCapability.Canonical :=
  ⟨fun _ found => (by cases found), by decide, by decide, by decide, by decide, fun _ found => (by cases found)⟩

def bareCapabilities (count : Nat) : List Byte :=
  (List.replicate count bareCapability).flatMap (fun cap => cap.serialize false)

theorem bareCapabilities_length (count : Nat) : (bareCapabilities count).length = count * 30 := by
  have bare : (bareCapability.serialize false).length = 30 := by decide
  simp [bareCapabilities, List.length_flatMap, bare]

theorem readRecords_bareCapabilities (count : Nat) :
    readRecords Capability.deserialize (bareCapabilities count) (bareCapabilities count).length 0 =
      (List.replicate count bareCapability, true) := by
  have nonempty : ∀ cap ∈ List.replicate count bareCapability, cap.serialize false ≠ [] :=
    fun cap _ => cap.serialize_ne_nil
  apply readRecords_written _ nonempty (length_le_written nonempty)
  intro cap found
  rw [List.eq_of_mem_replicate found]
  exact Capability.recovers bareCapability_canonical

/-- A small dictionary with `count` capabilities in it. -/
def crowdedEntries (count : Nat) : List (Dictionary.Key × List Byte) :=
  [number .networkId (1 : BitVec 64), addressText .issuedTo 1, (ConfigKey.capabilities.key, bareCapabilities count)]

def versionEntry : Dictionary.Key × List Byte := number .version (7 : BitVec 64)

theorem crowdedEntries_fit :
    (Dictionary.line versionEntry.1 versionEntry.2 ++ Dictionary.furtherLines (crowdedEntries 129)).length <
      16384 := by
  have version := Dictionary.length_line ConfigKey.version.key (Hex.digits 16 (7 : BitVec 64).toNat)
  have network := Dictionary.length_line ConfigKey.networkId.key (Hex.digits 16 (1 : BitVec 64).toNat)
  have issued := Dictionary.length_line ConfigKey.issuedTo.key (Hex.digits 10 (1 : Address).toNat)
  have records := Dictionary.length_line ConfigKey.capabilities.key (bareCapabilities 129)
  have names : ConfigKey.version.key.name.length = 1 ∧ ConfigKey.networkId.key.name.length = 4 ∧
      ConfigKey.issuedTo.key.name.length = 2 ∧ ConfigKey.capabilities.key.name.length = 3 := by decide
  rw [bareCapabilities_length, names.2.2.2] at records
  rw [Hex.digits_length, names.1] at version
  rw [Hex.digits_length, names.2.1] at network
  rw [Hex.digits_length, names.2.2.1] at issued
  simp only [crowdedEntries, versionEntry, number, addressText, Dictionary.furtherLines, List.flatMap_cons, List.flatMap_nil,
    List.length_append, List.length_cons, List.length_nil]
  omega

/-- 129 capabilities, a record more than the array holds, fit into the smallest dictionary that is
configured. -/
theorem capabilities_overrun_their_array : ∃ d : Dictionary 16384, ∀ order : SortOrder,
    ¬∀ write ∈ (fromDictionary {} order d).writes, write.Inside {} := by
  refine ⟨.ofEntries versionEntry (crowdedEntries 129) crowdedEntries_fit, ?_⟩
  intro order inside
  generalize named : Dictionary.ofEntries versionEntry (crowdedEntries 129) crowdedEntries_fit = d
  rw [named] at inside
  have answers : ∀ k : ConfigKey, d.value k.key =
      Dictionary.entryOf k.key (versionEntry :: crowdedEntries 129) := by
    intro k
    rw [← named]
    exact Dictionary.value_of_text rfl k.key
  have network := answers .networkId
  have issued := answers .issuedTo
  have version := answers .version
  have com := answers .com
  have records := answers .capabilities
  simp only [crowdedEntries, versionEntry, number, addressText, Dictionary.entryOf, ConfigKey.key_inj,
    reduceCtorEq, if_false, if_true] at network issued version com records
  have reached : ReachesCapabilities d := by
    refine ⟨?_, ?_, ?_, ?_⟩
    · rw [Dictionary.getUI_digits network (by decide) (by decide) (by decide) (by decide)]
      decide
    · rw [Dictionary.getUI_digits issued (by decide) (by decide) (by decide) (by decide)]
      decide
    · rw [Dictionary.getUI_digits version (by decide) (by decide) (by decide) (by decide)]
      decide
    · intro tmp found
      rw [com] at found
      cases found
  have bound := ((inside_fromDictionary {} order d).mp inside reached).1
  rw [recordsOf, Dictionary.getBuffer_eq, records] at bound
  dsimp only at bound
  rw [readRecords_bareCapabilities, List.length_replicate] at bound
  exact absurd bound (by decide)

end NetworkConfig

end ZeroTierNode
