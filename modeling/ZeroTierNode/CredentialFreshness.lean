import Mathlib.Algebra.Order.Group.Unbundled.Int
import ZeroTierNode.RevocationThresholds

/-!
Which of the credentials a `Membership` holds are honoured, over whole sequences of
`addCredential` and `clean` calls and of the questions that are asked in between. The
answers are compared with distances of times in the integers and with the
revocations that were accepted.
-/

namespace ZeroTierNode.CredentialFreshness
open Library.Bytes Library.Runs RevocationThresholds
open ZeroTierNode.Membership (credentialKey)

/-- All that `CapabilityIterator` returns. -/
def iterateCapabilities (m : Membership) (nconf : NetworkConfig) : List Capability :=
  (m.remoteCaps.entries.map fun entry => entry.2).filter fun cap => m.isCredentialTimestampValid nconf cap

inductive Input
  | add (call : AddCall)
  | clean (nconf : NetworkConfig)
  /-- `getTag`, `CapabilityIterator` and `hasCertificateOfOwnershipFor`. -/
  | consult (nconf : NetworkConfig)

def step (crypto : Crypto) (history : History) : Input → History
  | .add call => RevocationThresholds.step crypto history call
  | .clean nconf => { history with membership := history.membership.clean nconf }
  | .consult _ => history

section Exact

variable {C : Type} [RemoteCredential C]

/-- The time of a credential as an integer. -/
def time (cred : C) : Int := (RemoteCredential.timestamp cred).toInt

/-- The credential is close enough to the configuration, and later than every revocation of it that was accepted. -/
def Current (accepted : List Revocation) (nconf : NetworkConfig) (cred : C) : Prop :=
  |time cred - nconf.timestamp.toInt| ≤ nconf.credentialTimeMaxDelta.toInt ∧
    ∀ rev ∈ accepted, rev.credentialType = RemoteCredential.credentialType C →
      rev.credentialId = RemoteCredential.id cred → rev.threshold.toInt < time cred

/-- No credential was replaced by an older one. -/
def NeverOlder (before after : Remote C) : Prop :=
  ∀ id old new, before.lookup id = some old → after.lookup id = some new → time old ≤ time new

/-- What is kept is exactly what is current. -/
def KeepsCurrent (accepted : List Revocation) (nconf : NetworkConfig) (before after : Remote C) : Prop :=
  ∀ id cred, after.lookup id = some cred ↔ before.lookup id = some cred ∧ Current accepted nconf cred

/-- The distance of each time to that of the configuration fits in an `int64_t`. -/
def Near (nconf : NetworkConfig) (remoteCreds : Remote C) : Prop :=
  ∀ id cred, remoteCreds.lookup id = some cred → |time cred - nconf.timestamp.toInt| < 2 ^ 63

end Exact

/-- The answers about a membership are those of exact times. -/
structure Exact (history : History) (nconf : NetworkConfig) : Prop where
  tags : ∀ id tag, history.membership.getTag nconf id = some tag ↔
    history.membership.remoteTags.lookup id = some tag ∧ Current history.accepted nconf tag
  capabilities : ∀ cap, cap ∈ iterateCapabilities history.membership nconf ↔
    (∃ id, history.membership.remoteCaps.lookup id = some cap) ∧ Current history.accepted nconf cap
  ips : ∀ ip, history.membership.hasCooForIp nconf ip = true ↔
    (∃ id coo, history.membership.remoteCoos.lookup id = some coo ∧ Current history.accepted nconf coo ∧
      coo.ownsIp ip = true) ∨ Membership.isV6NDPEmulated nconf ip = true
  macs : ∀ mac, history.membership.hasCooForMac nconf mac = true ↔
    ∃ id coo, history.membership.remoteCoos.lookup id = some coo ∧ Current history.accepted nconf coo ∧
      coo.ownsMac mac = true

def Correct (crypto : Crypto) (history : History) (input : Input) : Prop :=
  let m := history.membership
  let after := (step crypto history input).membership
  (NeverOlder m.remoteTags after.remoteTags ∧ NeverOlder m.remoteCaps after.remoteCaps ∧
    NeverOlder m.remoteCoos after.remoteCoos) ∧
  match input with
  | .add _ => True
  | .clean nconf => KeepsCurrent history.accepted nconf m.remoteTags after.remoteTags ∧
      KeepsCurrent history.accepted nconf m.remoteCaps after.remoteCaps ∧
      KeepsCurrent history.accepted nconf m.remoteCoos after.remoteCoos
  | .consult nconf => Exact history nconf

/-- The first revocation of a credential is not negative, and no time is further than an `int64_t` from that of the
configuration. -/
def Meets (crypto : Crypto) (history : History) : Input → Prop
  | .add call => ∀ rev, call.credential = .revocation rev → rev.verify crypto call.RR = .ok → Keyed rev.credentialType →
      history.membership.revocations.lookup (credentialKey rev.credentialType rev.credentialId) = none →
        0 ≤ rev.threshold.toInt
  | .clean nconf | .consult nconf => Near nconf history.membership.remoteTags ∧
      Near nconf history.membership.remoteCaps ∧ Near nconf history.membership.remoteCoos

section Answers

variable {C : Type} [RemoteCredential C] {m : Membership} {accepted : List Revocation} {nconf : NetworkConfig}

/-- A difference that fits in 64 bits is not changed by them. -/
theorem toInt_sub_of_near {x y : BitVec 64} (order : y.toInt ≤ x.toInt) (near : |x.toInt - y.toInt| < 2 ^ 63) :
    (x - y).toInt = |x.toInt - y.toInt| := by
  rw [abs_of_nonneg (by omega)] at near ⊢
  rw [BitVec.toInt_sub]
  exact Int.bmod_eq_of_le (by omega) (by omega)

theorem distance_of_near {x y : BitVec 64} (near : |x.toInt - y.toInt| < 2 ^ 63) :
    (if y.toInt ≤ x.toInt then x - y else y - x).toInt = |x.toInt - y.toInt| := by
  split
  · rename_i order
    exact toInt_sub_of_near order near
  · rename_i order
    rw [abs_sub_comm] at near ⊢
    exact toInt_sub_of_near (by omega) near

theorem all_max?_iff (values : List Int) (ts : Int) :
    values.max?.all (fun threshold => threshold < ts) = true ↔ ∀ value ∈ values, value < ts := by
  cases greatest : values.max? with
  | none =>
      rw [List.max?_eq_none_iff] at greatest
      simp [greatest]
  | some top =>
      obtain ⟨member, above⟩ := List.max?_eq_some_iff.mp greatest
      simp only [Option.all_some, decide_eq_true_eq]
      exact ⟨fun below value inside => (above value inside).trans_lt below, fun below => below top member⟩

theorem keyed_tag : Keyed (RemoteCredential.credentialType Tag) := .inr (.inl rfl)

theorem keyed_capability : Keyed (RemoteCredential.credentialType Capability) := .inl rfl

theorem keyed_coo : Keyed (RemoteCredential.credentialType CertificateOfOwnership) := .inr (.inr rfl)

theorem valid_iff_current (keyed : Keyed (RemoteCredential.credentialType C))
    (stored : Stored m.revocations accepted) {cred : C} (near : |time cred - nconf.timestamp.toInt| < 2 ^ 63) :
    m.isCredentialTimestampValid nconf cred = true ↔ Current accepted nconf cred := by
  unfold Membership.isCredentialTimestampValid Current
  dsimp only
  rw [Bool.and_eq_true, decide_eq_true_eq, distance_of_near near, stored _ _ keyed, all_max?_iff]
  refine and_congr_right fun _ => ?_
  constructor
  · intro above rev member type id
    refine above _ (List.mem_map.mpr ⟨rev, List.mem_filter.mpr ⟨member, ?_⟩, rfl⟩)
    exact decide_eq_true ⟨type, id⟩
  · intro above value member
    obtain ⟨rev, found, same⟩ := List.mem_map.mp member
    obtain ⟨inside, fits⟩ := List.mem_filter.mp found
    obtain ⟨type, id⟩ := of_decide_eq_true fits
    rw [← same]
    exact above rev inside type id

end Answers

section Tables

variable {C : Type} [RemoteCredential C] {m : Membership} {nconf : NetworkConfig}

theorem lookup_eraseAll (remoteCreds : Remote C) (entries : List (Sigma fun _ : BitVec 32 => C)) (id : BitVec 32) :
    (entries.foldl (fun kept entry => if m.isCredentialTimestampValid nconf entry.2 then kept else kept.erase entry.1)
      remoteCreds).lookup id =
      if ∃ entry ∈ entries, entry.1 = id ∧ m.isCredentialTimestampValid nconf entry.2 = false then none
      else remoteCreds.lookup id := by
  induction entries generalizing remoteCreds with
  | nil => simp
  | cons entry entries ih =>
      rw [List.foldl_cons, ih]
      by_cases later : ∃ other ∈ entries, other.1 = id ∧ m.isCredentialTimestampValid nconf other.2 = false
      · obtain ⟨other, member, matching⟩ := later
        rw [if_pos ⟨other, member, matching⟩, if_pos ⟨other, List.mem_cons_of_mem _ member, matching⟩]
      · rw [if_neg later]
        have only : (∃ other ∈ entry :: entries, other.1 = id ∧ m.isCredentialTimestampValid nconf other.2 = false) ↔
            entry.1 = id ∧ m.isCredentialTimestampValid nconf entry.2 = false := by
          simp only [List.mem_cons, exists_eq_or_imp, later, or_false]
        simp only [only]
        cases valid : m.isCredentialTimestampValid nconf entry.2 with
        | true => simp
        | false =>
            by_cases same : entry.1 = id
            · rw [← same]
              simp
            · rw [if_neg Bool.false_ne_true, AList.lookup_erase_ne (Ne.symm same), if_neg (by simp [same])]

/-- `_cleanCredImpl` keeps what is valid. -/
theorem lookup_cleanCreds (remoteCreds : Remote C) (id : BitVec 32) (cred : C) :
    (m.cleanCreds nconf remoteCreds).lookup id = some cred ↔
      remoteCreds.lookup id = some cred ∧ m.isCredentialTimestampValid nconf cred = true := by
  unfold Membership.cleanCreds
  rw [lookup_eraseAll]
  constructor
  · intro kept
    split at kept
    · cases kept
    · rename_i absent
      refine ⟨kept, ?_⟩
      by_contra invalid
      exact absent ⟨⟨id, cred⟩, AList.mem_lookup_iff.mp kept, rfl, by simpa using invalid⟩
  · rintro ⟨found, valid⟩
    rw [if_neg, found]
    rintro ⟨entry, member, same, invalid⟩
    have other := AList.mem_lookup_iff.mpr (show (⟨id, entry.2⟩ : Sigma fun _ => C) ∈ remoteCreds.entries by
      rw [← same]
      exact member)
    rw [Option.mem_def, found] at other
    cases other
    rw [valid] at invalid
    cases invalid

theorem addCom_tables (crypto : Crypto) (RR : RuntimeEnvironment) (m : Membership) (com : CertificateOfMembership) :
    (m.addCom crypto RR com).2.remoteTags = m.remoteTags ∧ (m.addCom crypto RR com).2.remoteCaps = m.remoteCaps ∧
      (m.addCom crypto RR com).2.remoteCoos = m.remoteCoos := by
  unfold Membership.addCom
  dsimp only
  split_ifs
  · exact ⟨rfl, rfl, rfl⟩
  · exact ⟨rfl, rfl, rfl⟩
  · exact ⟨rfl, rfl, rfl⟩
  · cases com.verify crypto RR <;> exact ⟨rfl, rfl, rfl⟩

theorem addRevocation_tables (crypto : Crypto) (RR : RuntimeEnvironment) (m : Membership) (rev : Revocation) :
    (m.addRevocation crypto RR rev).2.remoteTags = m.remoteTags ∧
      (m.addRevocation crypto RR rev).2.remoteCaps = m.remoteCaps ∧
      (m.addRevocation crypto RR rev).2.remoteCoos = m.remoteCoos := by
  rcases @addRevocation_cases crypto RR m rev with ⟨-, -, same⟩ | ⟨-, -, raised⟩ | ⟨-, -, -, effect⟩
  · rw [same]
    exact ⟨rfl, rfl, rfl⟩
  · rw [raised]
    exact ⟨rfl, rfl, rfl⟩
  · rw [effect]
    unfold Membership.addCredentialRevocation
    dsimp only
    split
    · exact ⟨rfl, rfl, rfl⟩
    · exact ⟨rfl, rfl, rfl⟩

theorem neverOlder_refl (remoteCreds : Remote C) : NeverOlder remoteCreds remoteCreds := by
  intro id old new before after
  rw [before] at after
  cases after
  exact Int.le_refl _

theorem neverOlder_addCredImpl [DecidableEq C] (crypto : Crypto) (RR : RuntimeEnvironment) (remoteCreds : Remote C)
    (revocations : Revocations) (cred : C) :
    NeverOlder remoteCreds (Membership.addCredImpl crypto RR remoteCreds revocations cred).2 := by
  unfold Membership.addCredImpl
  dsimp only
  split
  · exact neverOlder_refl _
  rename_i notOlder
  split
  · exact neverOlder_refl _
  split
  · exact neverOlder_refl _
  split
  · exact neverOlder_refl _
  · intro id old new before after
    by_cases same : id = RemoteCredential.id cred
    · rw [same, AList.lookup_insert] at after
      rw [same] at before
      cases after
      rw [before] at notOlder
      simpa [time] using notOlder
    · rw [AList.lookup_insert_ne same, before] at after
      cases after
      exact Int.le_refl _
  · exact neverOlder_refl _

theorem neverOlder_cleanCreds (remoteCreds : Remote C) : NeverOlder remoteCreds (m.cleanCreds nconf remoteCreds) := by
  intro id old new before after
  rw [((lookup_cleanCreds _ _ _).mp after).1] at before
  cases before
  exact Int.le_refl _

end Tables

section Steps

variable {crypto : Crypto} {history : History} {nconf : NetworkConfig}

theorem stored_step (stored : Stored history.membership.revocations history.accepted) {input : Input}
    (meets : Meets crypto history input) :
    Stored (step crypto history input).membership.revocations (step crypto history input).accepted := by
  cases input with
  | clean nconf => exact stored
  | consult nconf => exact stored
  | add call =>
      obtain ⟨RR, credential⟩ := call
      cases credential with
      | com com =>
          change Stored (history.membership.addCom crypto RR com).2.revocations history.accepted
          rw [(addCom_thresholds RR history.membership com).2]
          exact stored
      | tag tag => exact stored
      | capability cap => exact stored
      | coo coo => exact stored
      | revocation rev =>
          change Stored (history.membership.addRevocation crypto RR rev).2.revocations
            (if (history.membership.addRevocation crypto RR rev).1.accepted then rev :: history.accepted
              else history.accepted)
          rcases @addRevocation_cases crypto RR history.membership rev with
            ⟨-, notAccepted, same⟩ | ⟨type, accepted, raised⟩ | ⟨verified, keyed, accepted, effect⟩
          · rw [notAccepted, same]
            exact stored
          · rw [accepted, raised, if_pos rfl]
            exact stored_com stored type
          · rw [accepted, effect, if_pos rfl, (addCredentialRevocation_stores ..).2]
            exact (stored_keyed_iff stored keyed).mpr (meets rev rfl verified keyed)

theorem neverOlder_step (history : History) (input : Input) :
    NeverOlder history.membership.remoteTags (step crypto history input).membership.remoteTags ∧
      NeverOlder history.membership.remoteCaps (step crypto history input).membership.remoteCaps ∧
      NeverOlder history.membership.remoteCoos (step crypto history input).membership.remoteCoos := by
  have unchanged {after : Membership} (tags : after.remoteTags = history.membership.remoteTags)
      (caps : after.remoteCaps = history.membership.remoteCaps)
      (coos : after.remoteCoos = history.membership.remoteCoos) :
      NeverOlder history.membership.remoteTags after.remoteTags ∧
        NeverOlder history.membership.remoteCaps after.remoteCaps ∧
        NeverOlder history.membership.remoteCoos after.remoteCoos := by
    rw [tags, caps, coos]
    exact ⟨neverOlder_refl _, neverOlder_refl _, neverOlder_refl _⟩
  cases input with
  | clean nconf => exact ⟨neverOlder_cleanCreds _, neverOlder_cleanCreds _, neverOlder_cleanCreds _⟩
  | consult nconf => exact unchanged rfl rfl rfl
  | add call =>
      obtain ⟨RR, credential⟩ := call
      cases credential with
      | com com =>
          obtain ⟨tags, caps, coos⟩ := addCom_tables crypto RR history.membership com
          exact unchanged tags caps coos
      | tag tag => exact ⟨neverOlder_addCredImpl _ _ _ _ _, neverOlder_refl _, neverOlder_refl _⟩
      | capability cap => exact ⟨neverOlder_refl _, neverOlder_addCredImpl _ _ _ _ _, neverOlder_refl _⟩
      | coo coo => exact ⟨neverOlder_refl _, neverOlder_refl _, neverOlder_addCredImpl _ _ _ _ _⟩
      | revocation rev =>
          obtain ⟨tags, caps, coos⟩ := addRevocation_tables crypto RR history.membership rev
          exact unchanged tags caps coos

theorem keepsCurrent_clean {C : Type} [RemoteCredential C] (keyed : Keyed (RemoteCredential.credentialType C))
    (stored : Stored history.membership.revocations history.accepted) {remoteCreds : Remote C}
    (near : Near nconf remoteCreds) :
    KeepsCurrent history.accepted nconf remoteCreds (history.membership.cleanCreds nconf remoteCreds) := by
  intro id cred
  rw [lookup_cleanCreds]
  exact and_congr_right fun found => valid_iff_current keyed stored (near id cred found)

theorem hasValidCoo_iff (stored : Stored history.membership.revocations history.accepted)
    (near : Near nconf history.membership.remoteCoos) (owns : CertificateOfOwnership → Bool) :
    history.membership.hasValidCoo nconf owns = true ↔
      ∃ id coo, history.membership.remoteCoos.lookup id = some coo ∧ Current history.accepted nconf coo ∧
        owns coo = true := by
  rw [Membership.hasValidCoo_eq_true]
  refine exists_congr fun id => exists_congr fun coo => and_congr_right fun found => and_congr_left fun _ => ?_
  exact valid_iff_current keyed_coo stored (near id coo found)

theorem exact_answers (stored : Stored history.membership.revocations history.accepted)
    (tags : Near nconf history.membership.remoteTags) (caps : Near nconf history.membership.remoteCaps)
    (coos : Near nconf history.membership.remoteCoos) : Exact history nconf := by
  constructor
  · intro id tag
    unfold Membership.getTag
    rw [Option.filter_eq_some_iff]
    exact and_congr_right fun found => valid_iff_current keyed_tag stored (tags id tag found)
  · intro cap
    unfold iterateCapabilities
    rw [List.mem_filter, List.mem_map]
    constructor
    · rintro ⟨⟨entry, member, same⟩, valid⟩
      have found : history.membership.remoteCaps.lookup entry.1 = some cap := by
        rw [← same]
        exact AList.mem_lookup_iff.mpr member
      exact ⟨⟨entry.1, found⟩, (valid_iff_current keyed_capability stored (caps _ _ found)).mp valid⟩
    · rintro ⟨⟨id, found⟩, current⟩
      exact ⟨⟨⟨id, cap⟩, AList.mem_lookup_iff.mp found, rfl⟩,
        (valid_iff_current keyed_capability stored (caps _ _ found)).mpr current⟩
  · intro ip
    unfold Membership.hasCooForIp
    rw [Bool.or_eq_true, hasValidCoo_iff stored coos]
  · intro mac
    exact hasValidCoo_iff stored coos _

theorem correct_of_meets (stored : Stored history.membership.revocations history.accepted) {input : Input}
    (meets : Meets crypto history input) : Correct crypto history input := by
  refine ⟨neverOlder_step history input, ?_⟩
  cases input with
  | add call => trivial
  | clean nconf =>
      exact ⟨keepsCurrent_clean keyed_tag stored meets.1, keepsCurrent_clean keyed_capability stored meets.2.1,
        keepsCurrent_clean keyed_coo stored meets.2.2⟩
  | consult nconf => exact exact_answers stored meets.1 meets.2.1 meets.2.2

end Steps

/-- In every run in which no first revocation is negative and no distance of times exceeds 63 bits, times never
decrease and exactly what is current is honoured and kept. -/
theorem credentials_honoured_exactly (crypto : Crypto) {inputs : List Input}
    (meets : Along (step crypto) (Meets crypto) .nil inputs) :
    Along (step crypto) (Correct crypto) .nil inputs := by
  have agree (history : History) (input : Input) (stored : Stored history.membership.revocations history.accepted)
      (meets : Meets crypto history input) : Meets crypto history input ↔ Correct crypto history input :=
    iff_of_true meets (correct_of_meets stored meets)
  exact (along_congr (fun _ _ stored meets => stored_step stored meets) agree (fun _ _ _ => rfl) meets).mp meets

/-- A tag for node 9 that controller 1 issued at the given time. -/
def issuedTag (ts : BitVec 64) : Tag := ⟨3, 0, 0x1000005, ts, 9, 1, 0⟩

/-- A configuration of the given time that allows for two hours. -/
def configOf (timestamp : BitVec 64) : NetworkConfig :=
  { NetworkConfig.nil with timestamp := timestamp, credentialTimeMaxDelta := 7200000 }

theorem near_of_entries {C : Type} [RemoteCredential C] {nconf : NetworkConfig} {remoteCreds : Remote C}
    (each : ∀ entry ∈ remoteCreds.entries, |time entry.2 - nconf.timestamp.toInt| < 2 ^ 63) :
    Near nconf remoteCreds :=
  fun id cred found => each ⟨id, cred⟩ (AList.mem_lookup_iff.mp found)

/-- A tag is replaced by a newer one, honoured, revoked and erased. -/
def tagLife : List Input :=
  [.add ⟨controllerKnown, .tag (issuedTag 1700000000000)⟩, .add ⟨controllerKnown, .tag (issuedTag 1700000060000)⟩,
    .consult (configOf 1700000060000),
    .add ⟨controllerKnown, .revocation ⟨0, 3, 0x1000005, 1700000060000, 0, 9, 1, 3, 0⟩⟩,
    .clean (configOf 1700000060000)]

theorem tagLife_correct : Along (step signedCrypto) (Correct signedCrypto) .nil tagLife := by
  refine credentials_honoured_exactly signedCrypto ⟨?_, ?_, ?_, ?_, ?_, trivial⟩
  · exact fun rev same => by cases same
  · exact fun rev same => by cases same
  · exact ⟨near_of_entries (by decide), near_of_entries (by decide), near_of_entries (by decide)⟩
  · intro rev same _ _ _
    cases same
    decide
  · exact ⟨near_of_entries (by decide), near_of_entries (by decide), near_of_entries (by decide)⟩

/-- A tag from 2^63 ms before the epoch is honoured by a configuration of 1 ms after it. -/
theorem farthest_tag_honoured :
    ∃ inputs, ¬ Along (step signedCrypto) (Correct signedCrypto) .nil inputs := by
  refine ⟨[.add ⟨controllerKnown, .tag (issuedTag 0x8000000000000000)⟩, .consult (configOf 1)], ?_⟩
  rintro ⟨-, ⟨-, answers⟩, -⟩
  have honoured := ((answers : Exact _ (configOf 1)).tags 3 (issuedTag 0x8000000000000000)).mp (by decide +kernel)
  exact absurd honoured.2.1 (by decide)

end ZeroTierNode.CredentialFreshness
