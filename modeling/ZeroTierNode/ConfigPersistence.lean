import ZeroTierNode.WireForms

/-!
A configuration that was read from a dictionary, written to another one and read
again: what the node does over a restart. The writer leaves out or changes a few
values that the reader can have produced; a configuration without them comes back
as it was.
-/

namespace ZeroTierNode
open Library Library.Bytes Library.Records Buffer

namespace Dictionary

@[simp] theorem entryOf_ite (key : Key) (condition : Prop) [Decidable condition] (first second : List (Key × List Byte)) :
    entryOf key (if condition then first else second) = if condition then entryOf key first else entryOf key second := by
  split <;> rfl

end Dictionary

namespace NetworkConfig
open Dictionary

section Answers

variable (nc : NetworkConfig)

/-- The value of a binary entry, which is absent when it is empty. -/
def present (tmp : List Byte) : Option (List Byte) := if tmp = [] then none else some tmp

/-- What a written configuration holds under each key. -/
def written (certificates : List (List Byte)) : ConfigKey → Option (List Byte)
  | .version => some (Hex.digits 16 (7 : BitVec 64).toNat)
  | .networkId => some (Hex.digits 16 nc.networkId.toNat)
  | .timestamp => some (Hex.digits 16 (if nc.timestamp.msb then -nc.timestamp else nc.timestamp).toNat)
  | .credentialTimeMaxDelta => some (Hex.digits 16
      (if nc.credentialTimeMaxDelta.msb then -nc.credentialTimeMaxDelta else nc.credentialTimeMaxDelta).toNat)
  | .revision => some (Hex.digits 16 nc.revision.toNat)
  | .issuedTo => some (Hex.digits 10 nc.issuedTo.toNat)
  | .remoteTraceTarget => some (Hex.digits 10 nc.remoteTraceTarget.toNat)
  | .remoteTraceLevel => some (Hex.digits 16 nc.remoteTraceLevel.toNat)
  | .flags => some (Hex.digits 16 nc.flags.toNat)
  | .multicastLimit => some (Hex.digits 16 nc.multicastLimit.toNat)
  | .type => some (Hex.digits 16 nc.type.toNat)
  | .name => some (cString nc.name)
  | .mtu => some (Hex.digits 16 nc.mtu.toNat)
  | .com => if nc.com.isSet then some nc.com.serialize else none
  | .capabilities => present (nc.capabilities.flatMap (fun cap => cap.serialize false))
  | .tags => present (nc.tags.flatMap (fun tag => tag.serialize false))
  | .certificatesOfOwnership => present certificates.flatten
  | .specialists => present (nc.specialists.flatMap (wordBytes 8))
  | .routes => present (nc.routes.flatMap Route.serialize)
  | .staticIps => present (nc.staticIps.flatMap InetAddress.serialize)
  | .rules => present (serializeRules nc.rules)
  | .dns => present (serializeDNS nc.dns)
  | k => entryOf k.key (ssoEntries nc)

theorem entryOf_blob (k : ConfigKey) (other : ConfigKey) (tmp : List Byte) :
    entryOf k.key (blob other tmp) = if other = k then present tmp else none := by
  unfold blob present
  by_cases empty : tmp = []
  · simp [empty, entryOf]
  · simp [empty, entryOf, ConfigKey.key_inj]

/-- Each key is answered by the one entry that has it. -/
theorem entryOf_entries {certificates : List (List Byte)} (k : ConfigKey) :
    entryOf k.key (headerEntries nc ++ comEntries nc ++
      blob .capabilities (nc.capabilities.flatMap (fun cap => cap.serialize false)) ++
      blob .tags (nc.tags.flatMap (fun tag => tag.serialize false)) ++
      blob .certificatesOfOwnership certificates.flatten ++
      blob .specialists (nc.specialists.flatMap (wordBytes 8)) ++
      blob .routes (nc.routes.flatMap Route.serialize) ++
      blob .staticIps (nc.staticIps.flatMap InetAddress.serialize) ++
      blob .rules (serializeRules nc.rules) ++ blob .dns (serializeDNS nc.dns) ++ ssoEntries nc) =
      written nc certificates k := by
  simp only [entryOf_append, entryOf_blob, headerEntries, comEntries, number, signedNumber, addressText, textEntry,
    entryOf, entryOf_ite, ConfigKey.key_inj]
  cases k
  all_goals simp only [written, reduceCtorEq, if_false, if_true, ite_self, Option.some_or, Option.none_or,
    Option.or_none]
  all_goals simp only [ssoEntries, entryOf_ite, entryOf_append, entryOf_blob, number, flagEntry, textEntry,
    entryOf, ConfigKey.key_inj, reduceCtorEq, if_false, ite_self, Option.or_none]

theorem toDictionary_answers {capacity : Nat} {target d : Dictionary capacity}
    (saved : nc.toDictionary target = some d) : ∃ certificates,
      nc.certificatesOfOwnership.mapM (fun coo => coo.serialize false) = some certificates ∧
        ∀ k : ConfigKey, d.value k.key = written nc certificates k := by
  obtain ⟨entries, composed, added⟩ := Option.bind_eq_some_iff.mp saved
  obtain ⟨certificates, serialized, composed⟩ := Option.bind_eq_some_iff.mp composed
  cases composed
  refine ⟨certificates, serialized, ?_⟩
  intro k
  rw [value_addAll rfl added, entryOf_entries]

end Answers

section Accepting

variable {capacity : Nat} (limits : Limits) (order : SortOrder) (d : Dictionary capacity)

/-- What `fromDictionary` reads, part by part, when it returns a configuration. -/
structure Accepts (nc : NetworkConfig) : Prop where
  networkId : (readHeader d).networkId ≠ 0
  issuedTo : (readHeader d).issuedTo ≠ 0
  version : 6 ≤ (d.getUI ConfigKey.version.key 0).toNat
  com : readCom d = some nc.com
  capabilities : (readCapabilities order d).result = some nc.capabilities
  tags : (readTags order d).result = some nc.tags
  certificatesOfOwnership : (readCertificatesOfOwnership limits d).result = some nc.certificatesOfOwnership
  specialists : (readSpecialists limits d).result = some nc.specialists
  routes : (readRoutes limits d).result = some nc.routes
  staticIps : (readStaticIps limits d).result = some nc.staticIps
  rules : (readRules limits d).result = some nc.rules
  dns : readDNS d = some nc.dns
  whole : nc = readSso d
    { readHeader d with
      flags := d.getUI ConfigKey.flags.key 0
      type := (d.getUI ConfigKey.type.key 0).setWidth 32
      com := nc.com, capabilities := nc.capabilities, tags := nc.tags
      certificatesOfOwnership := nc.certificatesOfOwnership, specialists := nc.specialists
      routes := nc.routes, staticIps := nc.staticIps, rules := nc.rules, dns := nc.dns }

/-- Single sign-on changes none of the other fields. -/
theorem readSso_others (nc : NetworkConfig) :
    readSso d nc =
      { nc with
        ssoVersion := (readSso d nc).ssoVersion, ssoEnabled := (readSso d nc).ssoEnabled
        authenticationURL := (readSso d nc).authenticationURL
        authenticationExpiryTime := (readSso d nc).authenticationExpiryTime
        issuerURL := (readSso d nc).issuerURL, centralAuthURL := (readSso d nc).centralAuthURL
        ssoNonce := (readSso d nc).ssoNonce, ssoState := (readSso d nc).ssoState
        ssoClientID := (readSso d nc).ssoClientID, ssoProvider := (readSso d nc).ssoProvider } := by
  unfold readSso
  dsimp only
  split_ifs <;> rfl

theorem fromDictionary_iff (nc : NetworkConfig) :
    (fromDictionary limits order d).result = some nc ↔ Accepts limits order d nc := by
  simp only [fromDictionary, Parse.bind_result, Parse.require_result, Parse.plain_result, exists_and_left, exists_const]
  constructor
  · rintro ⟨network, issued, version, com, comRead, capabilities, capabilitiesRead, tags, tagsRead,
      certificates, certificatesRead, specialists, specialistsRead, routes, routesRead, staticIps,
      staticIpsRead, rules, rulesRead, dns, dnsRead, made⟩
    have whole := Option.some.inj made
    have others := whole.symm.trans (readSso_others d _)
    have parts : nc.com = com ∧ nc.capabilities = capabilities ∧ nc.tags = tags ∧
        nc.certificatesOfOwnership = certificates ∧ nc.specialists = specialists ∧ nc.routes = routes ∧
        nc.staticIps = staticIps ∧ nc.rules = rules ∧ nc.dns = dns := by
      rw [others]
      exact ⟨rfl, rfl, rfl, rfl, rfl, rfl, rfl, rfl, rfl⟩
    obtain ⟨rfl, rfl, rfl, rfl, rfl, rfl, rfl, rfl, rfl⟩ := parts
    exact ⟨network, issued, version, comRead, capabilitiesRead, tagsRead, certificatesRead, specialistsRead,
      routesRead, staticIpsRead, rulesRead, dnsRead, whole.symm⟩
  · intro accepts
    exact ⟨accepts.networkId, accepts.issuedTo, accepts.version, nc.com, accepts.com, nc.capabilities,
      accepts.capabilities, nc.tags, accepts.tags, nc.certificatesOfOwnership, accepts.certificatesOfOwnership,
      nc.specialists, accepts.specialists, nc.routes, accepts.routes, nc.staticIps, accepts.staticIps,
      nc.rules, accepts.rules, nc.dns, accepts.dns, congrArg some accepts.whole.symm⟩

end Accepting

section Restoring

theorem charArray_nil (size : Nat) : charArray size [] = List.replicate size 0 := by simp [charArray]

theorem charArray_length (size : Nat) : (charArray size []).length = size := by
  rw [charArray_nil, List.length_replicate]

theorem charArray_set (size i : Nat) : (charArray size []).set i 0 = charArray size [] := by
  rw [charArray_nil, List.set_replicate_self]

variable {capacity : Nat} {d : Dictionary capacity} {k : ConfigKey}

theorem getUI_number {width : Nat} {word : BitVec width} (found : d.value k.key = some (Hex.digits 16 word.toNat))
    (narrow : width ≤ 64) (dfl : BitVec 64) : d.getUI k.key dfl = word.setWidth 64 :=
  getUI_digits found (by decide) (by decide) (by omega) narrow dfl

theorem getI_digits {word : BitVec 64} (found : d.value k.key = some (Hex.digits 16 word.toNat)) :
    d.getI k.key 0 = if word.msb then BitVec.intMax 64 else word := by
  rw [Dictionary.getI, getNumber_digits found (by decide) (by decide), Hex.strtoll_digits]

theorem getUI_address {a : Address} (found : d.value k.key = some (Hex.digits 10 a.toNat)) :
    Address.ofInt (d.getUI k.key 0) = a := by
  rw [getUI_digits found (by decide) (by decide) (by decide) (by decide), Address.ofInt,
    BitVec.setWidth_setWidth_of_le _ (by decide), BitVec.setWidth_eq]

theorem getB_flag {value : Bool} (found : d.value k.key = some (if value then [0x31] else [0x30])) :
    d.getB k.key false = value := by
  rw [getB, found]
  cases value <;> decide

/-- Records that were written under a key are read from it. -/
theorem recordsOf_present {α : Type} {read : List Byte → Nat → Option (α × Nat)} {write : α → List Byte}
    {records : List α} {room : List Byte → Nat} (found : d.value k.key = present (records.flatMap write))
    (recovers : ∀ record ∈ records, Recovers read (write record) record)
    (nonempty : ∀ record ∈ records, write record ≠ []) (enough : records.length ≤ room (records.flatMap write)) :
    recordsOf d k read room = (records, true) := by
  unfold recordsOf
  rw [getBuffer_eq, found]
  unfold present
  by_cases empty : records.flatMap write = []
  · have few := length_le_written nonempty
    rw [empty, List.length_nil, Nat.le_zero, List.length_eq_zero_iff] at few
    rw [if_pos empty, few]
  · rw [if_neg empty]
    exact readRecords_written recovers nonempty enough

/-- What a character array holds after its C string has been stored over `dest`. -/
def refill (dest array : List Byte) : List Byte :=
  cString array ++ 0 :: dest.drop ((cString array).length + 1)

/-- Behind its C string an array holds what `dest` holds there. -/
def Clean (dest array : List Byte) : Prop := array = refill dest array

/-- An array whose last byte is NUL. -/
def EndsInNul (dest : List Byte) : Prop := dest.getLast? = some 0

theorem charArray_ends {size : Nat} (positive : 0 < size) : EndsInNul (charArray size []) := by
  rw [EndsInNul, charArray_nil, List.getLast?_replicate, if_neg (by omega)]

theorem defaultProvider_ends : EndsInNul defaultProvider := by
  unfold EndsInNul
  decide

/-- An empty text over zeros is all zeros. -/
theorem clean_empty {size : Nat} {array : List Byte} (positive : 0 < size) (clean : Clean (charArray size []) array)
    (empty : cString array = []) : array = charArray size [] := by
  obtain ⟨size, rfl⟩ := Nat.exists_eq_succ_of_ne_zero (Nat.ne_of_gt positive)
  rw [clean, refill, empty, charArray_nil, Nat.succ_eq_add_one, List.replicate_succ]
  rfl

theorem set_of_getElem? {α : Type} {elements : List α} {i : Nat} {element : α}
    (found : elements[i]? = some element) : elements.set i element = elements := by
  obtain ⟨inside, same⟩ := List.getElem?_eq_some_iff.mp found
  rw [← same]
  exact List.set_getElem_self inside

section Texts

variable {dest array : List Byte} (size : array.length = dest.length) (clean : Clean dest array)

include size clean in
theorem cString_short : (cString array).length < dest.length := by
  have total := congrArg List.length clean
  rw [refill, List.length_append, List.length_cons] at total
  omega

include size clean in
theorem get_restores (found : d.value k.key = some (cString array)) :
    d.get k.key dest = (array, some (cString array).length) := by
  rw [get_of_value found (cString_short size clean)]
  exact congrArg (fun text => (text, some (cString array).length)) clean.symm

include size clean in
/-- Setting the last byte to NUL changes nothing. -/
theorem set_last (ends : EndsInNul dest) : array.set (dest.length - 1) 0 = array := by
  have short := cString_short size clean
  apply set_of_getElem?
  rw [EndsInNul, List.getLast?_eq_getElem?] at ends
  rw [clean, refill, List.getElem?_append_right (by omega)]
  by_cases full : (cString array).length + 1 = dest.length
  · have first : dest.length - 1 - (cString array).length = 0 := by omega
    rw [first]
    rfl
  · obtain ⟨index, later⟩ : ∃ index, dest.length - 1 - (cString array).length = index + 1 :=
      ⟨dest.length - 2 - (cString array).length, by omega⟩
    have same : (cString array).length + 1 + index = dest.length - 1 := by omega
    rw [later, List.getElem?_cons_succ, List.getElem?_drop, same]
    exact ends

include size clean in
theorem readText_restores (ends : EndsInNul dest) (found : d.value k.key = some (cString array))
    {otherwise : List Byte → List Byte} (empty : cString array = [] → otherwise array = array) :
    readText d k dest otherwise = array := by
  unfold readText
  rw [get_restores size clean found]
  dsimp only
  rw [Option.getD_some]
  by_cases none : cString array = []
  · rw [none, List.length_nil, if_neg (Nat.lt_irrefl 0)]
    exact empty none
  · rw [if_pos (List.length_pos_iff.mpr none)]
    exact set_last size clean ends

end Texts

theorem length_get (d : Dictionary capacity) (key : Key) {dest : List Byte} (nonempty : dest ≠ []) :
    (d.get key dest).1.length = dest.length := by
  have positive := List.length_pos_iff.mpr nonempty
  unfold Dictionary.get
  cases d.value key with
  | none => exact List.length_set
  | some found =>
      dsimp only
      simp only [List.length_append, List.length_cons, List.length_drop, List.length_take]
      omega

theorem length_readText (d : Dictionary capacity) (k : ConfigKey) {dest : List Byte} (nonempty : dest ≠ [])
    {otherwise : List Byte → List Byte}
    (keeps : ∀ text : List Byte, text.length = dest.length → (otherwise text).length = dest.length) :
    (readText d k dest otherwise).length = dest.length := by
  have stored := length_get d k.key nonempty
  unfold readText
  dsimp only
  split
  · rw [List.length_set, stored]
  · exact keeps _ stored

end Restoring

/-- What an accepted dictionary must not bring for the configuration to survive a restart: more
capabilities or tags than their arrays hold, or two of one id; a negative time; a certificate of membership
without qualifiers; a version of single sign-on beyond 1; a text with bytes behind its end; and with version 1
an authentication URL, or an enabled provider whose name is empty. -/
structure Persistable (limits : Limits) (nc : NetworkConfig) : Prop where
  capabilityCount : nc.capabilities.length ≤ limits.capabilities
  capabilityIds : (nc.capabilities.map (fun cap => cap.id.toNat)).Nodup
  tagCount : nc.tags.length ≤ limits.tags
  tagIds : (nc.tags.map (fun tag => tag.id.toNat)).Nodup
  timestamp : nc.timestamp.msb = false
  credentialTimeMaxDelta : nc.credentialTimeMaxDelta.msb = false
  authenticationExpiryTime : nc.authenticationExpiryTime.msb = false
  com : nc.com.isSet ∨ nc.com = .nil
  ssoVersion : nc.ssoVersion = 0 ∨ nc.ssoVersion = 1
  name : Clean nil.name nc.name
  implicitFlow : nc.ssoVersion = 0 → Clean nil.authenticationURL nc.authenticationURL
  fullFlow : nc.ssoVersion = 1 → nc.authenticationURL = nil.authenticationURL
  fullFlowTexts : nc.ssoVersion = 1 → nc.ssoEnabled = true →
    Clean nil.issuerURL nc.issuerURL ∧ Clean nil.centralAuthURL nc.centralAuthURL ∧
      Clean nil.ssoNonce nc.ssoNonce ∧ Clean nil.ssoState nc.ssoState ∧
      Clean nil.ssoClientID nc.ssoClientID ∧ Clean nil.ssoProvider nc.ssoProvider ∧
      cString nc.ssoProvider ≠ []

section Reload

variable {capacity : Nat} {limits : Limits} {order : SortOrder} {d : Dictionary capacity} {nc : NetworkConfig}

theorem mem_recordsOf {α : Type} {k : ConfigKey} {read : List Byte → Nat → Option (α × Nat)}
    {room : List Byte → Nat} {record : α} (found : record ∈ (recordsOf d k read room).1) :
    ∃ b p taken, read b p = some (record, taken) := by
  unfold recordsOf at found
  cases stored : d.getBuffer k.key with
  | none =>
      rw [stored] at found
      cases found
  | some tmp =>
      rw [stored] at found
      obtain ⟨position, taken, read⟩ := mem_readRecords found
      exact ⟨tmp, position, taken, read⟩

/-- What a loop that looks at its array's size returns. -/
theorem readBounded_result {α : Type} {array : ConfigArray} {k : ConfigKey}
    {read : List Byte → Nat → Option (α × Nat)} {records : List α}
    (done : (readBounded limits d array k read).result = some records) :
    records.length ≤ limits.size array ∧ ∀ record ∈ records, ∃ b p taken, read b p = some (record, taken) := by
  unfold readBounded at done
  rw [Parse.fill_result] at done
  split at done
  · cases done
    refine ⟨?_, fun record found => mem_recordsOf found⟩
    unfold recordsOf
    cases d.getBuffer k.key with
    | none => exact Nat.zero_le _
    | some tmp => exact readRecords_length _ _
  · cases done

theorem readBounded_restores {α : Type} {array : ConfigArray} {k : ConfigKey}
    {read : List Byte → Nat → Option (α × Nat)} {write : α → List Byte} {records : List α}
    (found : d.value k.key = present (records.flatMap write))
    (recovers : ∀ record ∈ records, Recovers read (write record) record)
    (nonempty : ∀ record ∈ records, write record ≠ []) (few : records.length ≤ limits.size array) :
    (readBounded limits d array k read).result = some records := by
  unfold readBounded
  rw [Parse.fill_result, recordsOf_present found recovers nonempty few]
  rfl

/-- The bytes of certificates that could all be written. -/
theorem mapM_flatten {α : Type} {write : α → Option (List Byte)} {records : List α} {parts : List (List Byte)}
    (all : records.mapM write = some parts) :
    parts.flatten = records.flatMap (fun record => (write record).getD []) ∧
      ∀ record ∈ records, ∃ bytes, write record = some bytes := by
  induction records generalizing parts with
  | nil =>
      cases all
      exact ⟨rfl, fun record found => (by cases found)⟩
  | cons record records ih =>
      rw [List.mapM_cons] at all
      obtain ⟨first, written, all⟩ := Option.bind_eq_some_iff.mp all
      obtain ⟨others, later, all⟩ := Option.bind_eq_some_iff.mp all
      cases all
      obtain ⟨flat, rest⟩ := ih later
      refine ⟨?_, ?_⟩
      · rw [List.flatten_cons, List.flatMap_cons, written, flat]
        rfl
      · intro other found
        rcases List.mem_cons.mp found with same | found
        · rw [same]
          exact ⟨first, written⟩
        · exact rest other found

theorem clampMtu_idempotent (mtu : BitVec 32) : clampMtu (clampMtu mtu) = clampMtu mtu := by
  by_cases low : mtu.toNat < 1280
  · have value : clampMtu mtu = 1280 := by rw [clampMtu, if_pos low]
    rw [value]
    decide
  · by_cases high : 10000 < mtu.toNat
    · have value : clampMtu mtu = 10000 := by rw [clampMtu, if_neg low, if_pos high]
      rw [value]
      decide
    · have value : clampMtu mtu = mtu := by rw [clampMtu, if_neg low, if_neg high]
      rw [value, value]

/-- The fields of an accepted configuration outside single sign-on are those of its header. -/
theorem Accepts.others (accepts : Accepts limits order d nc) :
    nc.networkId = d.getUI ConfigKey.networkId.key 0 ∧ nc.timestamp = d.getUI ConfigKey.timestamp.key 0 ∧
    nc.credentialTimeMaxDelta = d.getUI ConfigKey.credentialTimeMaxDelta.key 0 ∧
    nc.revision = d.getUI ConfigKey.revision.key 0 ∧
    nc.issuedTo = Address.ofInt (d.getUI ConfigKey.issuedTo.key 0) ∧
    nc.remoteTraceTarget = Address.ofInt (d.getUI ConfigKey.remoteTraceTarget.key 0) ∧
    nc.remoteTraceLevel = (d.getUI ConfigKey.remoteTraceLevel.key 0).setWidth 32 ∧
    nc.flags = d.getUI ConfigKey.flags.key 0 ∧
    nc.multicastLimit = (d.getUI ConfigKey.multicastLimit.key 0).setWidth 32 ∧
    nc.type = (d.getUI ConfigKey.type.key 0).setWidth 32 ∧
    nc.name = (d.get ConfigKey.name.key nil.name).1 ∧
    nc.mtu = clampMtu ((d.getUI ConfigKey.mtu.key 2800).setWidth 32) := by
  have whole := accepts.whole.trans (readSso_others d _)
  exact ⟨congrArg NetworkConfig.networkId whole, congrArg NetworkConfig.timestamp whole,
    congrArg NetworkConfig.credentialTimeMaxDelta whole, congrArg NetworkConfig.revision whole,
    congrArg NetworkConfig.issuedTo whole, congrArg NetworkConfig.remoteTraceTarget whole,
    congrArg NetworkConfig.remoteTraceLevel whole, congrArg NetworkConfig.flags whole,
    congrArg NetworkConfig.multicastLimit whole, congrArg NetworkConfig.type whole,
    congrArg NetworkConfig.name whole, congrArg NetworkConfig.mtu whole⟩

variable {after : Dictionary capacity} {certificates : List (List Byte)}
  (accepts : Accepts limits order d nc) (answers : ∀ k : ConfigKey, after.value k.key = written nc certificates k)
  (persistable : Persistable limits nc)

include accepts answers persistable in
/-- The header is read back. -/
theorem readHeader_restored : readHeader after = readHeader d := by
  obtain ⟨networkId, timestamp, credentialTimeMaxDelta, revision, issuedTo, remoteTraceTarget, remoteTraceLevel,
    -, multicastLimit, -, name, mtu⟩ := accepts.others
  have positive : ∀ value : BitVec 64, value.msb = false → (if value.msb then -value else value) = value := by
    intro value plus
    rw [plus]
    rfl
  have narrow : ∀ word : BitVec 32, (word.setWidth 64).setWidth 32 = word := by
    intro word
    rw [BitVec.setWidth_setWidth_of_le _ (by decide), BitVec.setWidth_eq]
  have size : nc.name.length = nil.name.length := by
    rw [name]
    exact length_get d _ (by decide)
  have networkIdRead := getUI_number (answers .networkId) (by decide) 0
  have timestampRead := getUI_number (answers .timestamp) (by decide) 0
  have credentialTimeMaxDeltaRead := getUI_number (answers .credentialTimeMaxDelta) (by decide) 0
  have revisionRead := getUI_number (answers .revision) (by decide) 0
  have issuedToRead := getUI_address (answers .issuedTo)
  have remoteTraceTargetRead := getUI_address (answers .remoteTraceTarget)
  have remoteTraceLevelRead := getUI_number (answers .remoteTraceLevel) (by decide) 0
  have multicastLimitRead := getUI_number (answers .multicastLimit) (by decide) 0
  have mtuRead := getUI_number (answers .mtu) (by decide) 2800
  have nameRead := get_restores size persistable.name (answers .name)
  rw [positive _ persistable.timestamp, BitVec.setWidth_eq] at timestampRead
  rw [positive _ persistable.credentialTimeMaxDelta, BitVec.setWidth_eq] at credentialTimeMaxDeltaRead
  rw [BitVec.setWidth_eq] at networkIdRead revisionRead
  unfold readHeader
  rw [networkIdRead, timestampRead, credentialTimeMaxDeltaRead, revisionRead, issuedToRead, remoteTraceTargetRead,
    remoteTraceLevelRead, multicastLimitRead, mtuRead, nameRead, narrow, narrow, narrow, networkId, timestamp,
    credentialTimeMaxDelta, revision, issuedTo, remoteTraceTarget, remoteTraceLevel, multicastLimit, mtu, name,
    clampMtu_idempotent]

include accepts answers persistable in
theorem readCom_restored : readCom after = some nc.com := by
  have canonical : nc.com.Canonical := by
    have read := accepts.com
    unfold readCom at read
    cases stored : d.getBuffer ConfigKey.com.key with
    | none =>
        rw [stored] at read
        rw [← Option.some.inj read]
        exact ⟨by decide, trivial, fun _ => rfl⟩
    | some tmp =>
        rw [stored] at read
        obtain ⟨⟨com, taken⟩, deserialized, same⟩ := Option.map_eq_some_iff.mp read
        rw [← same]
        exact CertificateOfMembership.deserialize_canonical deserialized
  have stored := answers .com
  rw [written] at stored
  unfold readCom
  rw [getBuffer_eq, stored]
  by_cases set : nc.com.isSet
  · rw [if_pos set]
    dsimp only
    rw [CertificateOfMembership.recovers canonical _ 0 (stands_self _), Option.map_some]
  · rw [if_neg set]
    have missing : nc.com = .nil := persistable.com.resolve_left set
    rw [missing]

include accepts answers persistable in
theorem readCapabilities_restored : (readCapabilities order after).result = some nc.capabilities := by
  have sorted := Option.some.inj ((Parse.fill_result _ _ _).symm.trans accepts.capabilities)
  have ascending := order.capabilities.ascending (recordsOf d .capabilities Capability.deserialize List.length).1
  have same := order.capabilities.perm (recordsOf d .capabilities Capability.deserialize List.length).1
  rw [sorted] at ascending same
  have recovers : ∀ cap ∈ nc.capabilities, Recovers Capability.deserialize (cap.serialize false) cap := by
    intro cap found
    obtain ⟨b, p, taken, read⟩ := mem_recordsOf (same.mem_iff.mp found)
    exact Capability.recovers (Capability.deserialize_canonical read).1
  have nonempty : ∀ cap ∈ nc.capabilities, cap.serialize false ≠ [] := fun cap _ => cap.serialize_ne_nil
  unfold readCapabilities
  rw [Parse.fill_result, recordsOf_present (answers .capabilities) recovers nonempty (length_le_written nonempty),
    order.capabilities.sort_of_ascending persistable.capabilityIds ascending]

include accepts answers persistable in
theorem readTags_restored : (readTags order after).result = some nc.tags := by
  have sorted := Option.some.inj ((Parse.fill_result _ _ _).symm.trans accepts.tags)
  have ascending := order.tags.ascending (recordsOf d .tags Tag.deserialize List.length).1
  rw [sorted] at ascending
  have nonempty : ∀ tag ∈ nc.tags, tag.serialize false ≠ [] := fun tag _ => tag.serialize_ne_nil
  unfold readTags
  rw [Parse.fill_result, recordsOf_present (answers .tags) (fun tag _ => tag.recovers) nonempty
    (length_le_written nonempty), order.tags.sort_of_ascending persistable.tagIds ascending]

include accepts answers in
theorem readCertificatesOfOwnership_restored
    (serialized : nc.certificatesOfOwnership.mapM (fun coo => coo.serialize false) = some certificates) :
    (readCertificatesOfOwnership limits after).result = some nc.certificatesOfOwnership := by
  have taken := accepts.certificatesOfOwnership
  unfold readCertificatesOfOwnership at taken
  rw [Parse.fill_result] at taken
  split at taken
  · have kept := Option.some.inj taken
    have few : nc.certificatesOfOwnership.length ≤ limits.certificatesOfOwnership := by
      rw [← kept]
      exact List.length_take_le _ _
    obtain ⟨flat, all⟩ := mapM_flatten serialized
    have stored := answers .certificatesOfOwnership
    rw [written, flat] at stored
    have recovers : ∀ coo ∈ nc.certificatesOfOwnership,
        Recovers CertificateOfOwnership.deserialize ((coo.serialize false).getD []) coo := by
      intro coo found
      obtain ⟨bytes, serialized⟩ := all coo found
      rw [← kept] at found
      obtain ⟨b, p, length, read⟩ := mem_recordsOf (List.mem_of_mem_take found)
      rw [serialized, Option.getD_some]
      exact CertificateOfOwnership.recovers (CertificateOfOwnership.deserialize_counted read) serialized
    have nonempty : ∀ coo ∈ nc.certificatesOfOwnership, (coo.serialize false).getD [] ≠ [] := by
      intro coo found
      obtain ⟨bytes, serialized⟩ := all coo found
      rw [serialized, Option.getD_some]
      exact CertificateOfOwnership.serialize_ne_nil serialized
    unfold readCertificatesOfOwnership
    rw [Parse.fill_result, recordsOf_present stored recovers nonempty (length_le_written nonempty)]
    dsimp only
    rw [if_pos rfl, List.take_of_length_le few]
  · cases taken

include accepts answers in
theorem readSpecialists_restored : (readSpecialists limits after).result = some nc.specialists := by
  have kept := Option.some.inj ((Parse.fill_result _ _ _).symm.trans accepts.specialists)
  have few : nc.specialists.length ≤ limits.specialists := by
    rw [← kept]
    exact List.length_take_le _ _
  have nonempty : ∀ word ∈ nc.specialists, wordBytes 8 word ≠ [] := by
    intro word _
    simp [wordBytes, bigEndian]
  unfold readSpecialists
  rw [Parse.fill_result, recordsOf_present (answers .specialists) (fun word _ => readSpecialist_recovers word) nonempty
    (length_le_written nonempty), List.take_of_length_le few]

include accepts answers in
theorem readRoutes_restored : (readRoutes limits after).result = some nc.routes :=
  readBounded_restores (answers .routes) (fun route _ => route.recovers) (fun route _ => route.serialize_ne_nil)
    (readBounded_result accepts.routes).1

include accepts answers in
theorem readStaticIps_restored : (readStaticIps limits after).result = some nc.staticIps :=
  readBounded_restores (answers .staticIps) (fun addr _ => addr.recovers) (fun addr _ => addr.serialize_ne_nil)
    (readBounded_result accepts.staticIps).1

include accepts answers in
theorem readRules_restored : (readRules limits after).result = some nc.rules := by
  obtain ⟨few, read⟩ := readBounded_result accepts.rules
  apply readBounded_restores (answers .rules) _ (fun rule _ => serializeRule_ne_nil rule) few
  intro rule found
  obtain ⟨b, p, taken, read⟩ := read rule found
  exact readRule_recovers (readRule_canonical read)

include accepts answers in
theorem readDNS_restored : readDNS after = some nc.dns := by
  have canonical : nc.dns.Canonical := by
    have read := accepts.dns
    unfold readDNS at read
    cases stored : d.getBuffer ConfigKey.dns.key with
    | none =>
        rw [stored] at read
        rw [← Option.some.inj read]
        exact ⟨charArray_length 128, charArray_set 128 127, rfl⟩
    | some tmp =>
        rw [stored] at read
        exact deserializeDNS_canonical read
  have nonempty : serializeDNS nc.dns ≠ [] := by
    have domain : nc.dns.domain ≠ [] := by
      rw [ne_eq, ← List.length_eq_zero_iff, canonical.size]
      decide
    simp [serializeDNS, domain]
  have stored := answers .dns
  rw [written, present, if_neg nonempty] at stored
  unfold readDNS
  rw [getBuffer_eq, stored]
  exact deserializeDNS_serializeDNS canonical

/-- What is written for the implicit flow. -/
theorem implicitFlow_entries (version : nc.ssoVersion = 0) :
    entryOf ConfigKey.ssoVersion.key (ssoEntries nc) = some (Hex.digits 16 nc.ssoVersion.toNat) ∧
    entryOf ConfigKey.ssoEnabled.key (ssoEntries nc) = some (if nc.ssoEnabled then [0x31] else [0x30]) ∧
    (nc.ssoEnabled = true →
      entryOf ConfigKey.authenticationURL.key (ssoEntries nc) = present (cString nc.authenticationURL) ∧
      entryOf ConfigKey.authenticationExpiryTime.key (ssoEntries nc) =
        some (Hex.digits 16 nc.authenticationExpiryTime.toNat)) := by
  unfold ssoEntries
  rw [if_pos version]
  refine ⟨?_, ?_, ?_⟩
  · simp [number, entryOf]
  · simp [number, flagEntry, entryOf, ConfigKey.key_inj]
  · intro enabled
    simp [number, flagEntry, entryOf, entryOf_append, entryOf_blob, ConfigKey.key_inj, enabled]

/-- What is written for the full flow. -/
theorem fullFlow_entries (version : nc.ssoVersion = 1) :
    entryOf ConfigKey.ssoVersion.key (ssoEntries nc) = some (Hex.digits 16 nc.ssoVersion.toNat) ∧
    entryOf ConfigKey.ssoEnabled.key (ssoEntries nc) = some (if nc.ssoEnabled then [0x31] else [0x30]) ∧
    entryOf ConfigKey.authenticationURL.key (ssoEntries nc) = none ∧
    entryOf ConfigKey.issuerURL.key (ssoEntries nc) = some (cString nc.issuerURL) ∧
    entryOf ConfigKey.centralEndpointURL.key (ssoEntries nc) = some (cString nc.centralAuthURL) ∧
    entryOf ConfigKey.nonce.key (ssoEntries nc) = some (cString nc.ssoNonce) ∧
    entryOf ConfigKey.state.key (ssoEntries nc) = some (cString nc.ssoState) ∧
    entryOf ConfigKey.clientID.key (ssoEntries nc) = some (cString nc.ssoClientID) ∧
    entryOf ConfigKey.ssoProvider.key (ssoEntries nc) = some (cString nc.ssoProvider) := by
  have notImplicit : ¬nc.ssoVersion = 0 := by
    rw [version]
    decide
  unfold ssoEntries
  rw [if_neg notImplicit, if_pos version]
  simp [number, flagEntry, textEntry, entryOf, ConfigKey.key_inj]

/-- An absent text leaves the zeros that were there. -/
theorem readText_absent {k : ConfigKey} {size : Nat} (absent : after.value k.key = none)
    (otherwise : List Byte → List Byte) (keeps : otherwise (charArray size []) = charArray size []) :
    readText after k (charArray size []) otherwise = charArray size [] := by
  unfold readText Dictionary.get
  rw [absent]
  dsimp only
  rw [Option.getD_none, if_neg (Nat.lt_irrefl 0), charArray_set, keeps]

/-- A text that was stored over zeros and is written whole is stored over zeros again. -/
theorem zeroText_restores {k : ConfigKey} {size : Nat} {array : List Byte} (positive : 0 < size)
    (stored : array = readText d k (charArray size []) id) (clean : Clean (charArray size []) array)
    (found : after.value k.key = some (cString array)) : readText after k (charArray size []) id = array := by
  have length : array.length = (charArray size []).length := by
    rw [stored]
    exact length_readText d k (List.ne_nil_of_length_pos (by rw [charArray_length]; exact positive))
      (fun text sized => sized)
  exact readText_restores length clean (charArray_ends positive) found (fun _ => rfl)

theorem readSso_version (d : Dictionary capacity) (base : NetworkConfig) :
    (readSso d base).ssoVersion = d.getUI ConfigKey.ssoVersion.key 0 := by
  unfold readSso
  dsimp only
  split_ifs <;> rfl

theorem readSso_enabled (d : Dictionary capacity) (base : NetworkConfig) :
    (readSso d base).ssoEnabled = d.getB ConfigKey.ssoEnabled.key false := by
  unfold readSso
  dsimp only
  split_ifs <;> rfl

include answers in
/-- The version and the flag, which say what else is read, stand alike in both dictionaries. -/
theorem readSso_selects {base : NetworkConfig} (read : nc = readSso d base)
    (versionEntry : entryOf ConfigKey.ssoVersion.key (ssoEntries nc) = some (Hex.digits 16 nc.ssoVersion.toNat))
    (enabledEntry : entryOf ConfigKey.ssoEnabled.key (ssoEntries nc) =
      some (if nc.ssoEnabled then [0x31] else [0x30])) :
    (d.getUI ConfigKey.ssoVersion.key 0 = nc.ssoVersion ∧ d.getB ConfigKey.ssoEnabled.key false = nc.ssoEnabled) ∧
    after.getUI ConfigKey.ssoVersion.key 0 = nc.ssoVersion ∧
    after.getB ConfigKey.ssoEnabled.key false = nc.ssoEnabled := by
  have oldVersion := readSso_version d base
  have oldEnabled := readSso_enabled d base
  rw [← read] at oldVersion oldEnabled
  have versionRead := getUI_number ((answers .ssoVersion).trans versionEntry) (by decide) 0
  rw [BitVec.setWidth_eq] at versionRead
  have enabledRead := getB_flag ((answers .ssoEnabled).trans enabledEntry)
  exact ⟨⟨oldVersion.symm, oldEnabled.symm⟩, versionRead, enabledRead⟩

include answers in
theorem readSso_implicitFlow {base : NetworkConfig} (initial : base.authenticationURL = charArray 2048 [])
    (read : nc = readSso d base) (version : nc.ssoVersion = 0) (clean : Clean (charArray 2048 []) nc.authenticationURL)
    (positive : nc.authenticationExpiryTime.msb = false) : readSso after base = nc := by
  obtain ⟨versionEntry, enabledEntry, enabledEntries⟩ := implicitFlow_entries version
  obtain ⟨⟨oldVersion, oldEnabled⟩, versionRead, enabledRead⟩ :=
    readSso_selects answers read versionEntry enabledEntry
  unfold readSso at read ⊢
  rw [versionRead, enabledRead]
  rw [oldVersion, oldEnabled] at read
  dsimp only at read ⊢
  rw [if_pos version] at read ⊢
  by_cases enabled : nc.ssoEnabled = true
  · rw [if_pos enabled] at read ⊢
    obtain ⟨urlEntry, expiryEntry⟩ := enabledEntries enabled
    have url := congrArg NetworkConfig.authenticationURL read
    have expiry := congrArg NetworkConfig.authenticationExpiryTime read
    dsimp only at url expiry
    rw [initial] at url read ⊢
    have size : nc.authenticationURL.length = (charArray 2048 []).length := by
      rw [url]
      apply length_readText d _ (List.ne_nil_of_length_pos (by rw [charArray_length]; decide))
      intro text sized
      rw [List.length_set, sized]
    have urlRead : readText after .authenticationURL (charArray 2048 []) (fun text => text.set 0 0) =
        nc.authenticationURL := by
      by_cases empty : cString nc.authenticationURL = []
      · have absent := (answers .authenticationURL).trans urlEntry
        rw [present, if_pos empty] at absent
        rw [clean_empty (by decide) clean empty]
        exact readText_absent absent (fun text => text.set 0 0) (charArray_set 2048 0)
      · have found := (answers .authenticationURL).trans urlEntry
        rw [present, if_neg empty] at found
        exact readText_restores size clean (charArray_ends (by decide)) found (fun none => absurd none empty)
    have expiryRead : after.getI ConfigKey.authenticationExpiryTime.key 0 = nc.authenticationExpiryTime := by
      have found := (answers .authenticationExpiryTime).trans expiryEntry
      rw [getI_digits found, positive, if_neg Bool.false_ne_true]
    rw [urlRead, expiryRead]
    rw [← url, ← expiry] at read
    exact read.symm
  · rw [if_neg enabled] at read ⊢
    exact read.symm

include answers in
theorem readSso_fullFlow {base : NetworkConfig} (url : base.authenticationURL = charArray 2048 [])
    (issuer : base.issuerURL = charArray 2048 []) (central : base.centralAuthURL = charArray 2048 [])
    (nonce : base.ssoNonce = charArray 128 []) (state : base.ssoState = charArray 256 [])
    (clientID : base.ssoClientID = charArray 256 []) (provider : base.ssoProvider = defaultProvider)
    (read : nc = readSso d base) (version : nc.ssoVersion = 1) (persistable : Persistable limits nc) :
    readSso after base = nc := by
  obtain ⟨versionEntry, enabledEntry, noUrl, issuerEntry, centralEntry, nonceEntry, stateEntry, clientEntry,
    providerEntry⟩ := fullFlow_entries version
  obtain ⟨⟨oldVersion, oldEnabled⟩, versionRead, enabledRead⟩ :=
    readSso_selects answers read versionEntry enabledEntry
  have notImplicit : ¬nc.ssoVersion = 0 := by
    rw [version]
    decide
  unfold readSso at read ⊢
  rw [versionRead, enabledRead]
  rw [oldVersion, oldEnabled] at read
  dsimp only at read ⊢
  rw [if_neg notImplicit, if_pos version] at read ⊢
  by_cases enabled : nc.ssoEnabled = true
  · rw [if_pos enabled] at read ⊢
    obtain ⟨issuerClean, centralClean, nonceClean, stateClean, clientClean, providerClean, named⟩ :=
      persistable.fullFlowTexts version enabled
    have noURL := persistable.fullFlow version
    rw [url, issuer, central, nonce, state, clientID, provider] at read ⊢
    have oldURL := congrArg NetworkConfig.authenticationURL read
    have oldIssuer := congrArg NetworkConfig.issuerURL read
    have oldCentral := congrArg NetworkConfig.centralAuthURL read
    have oldNonce := congrArg NetworkConfig.ssoNonce read
    have oldState := congrArg NetworkConfig.ssoState read
    have oldClient := congrArg NetworkConfig.ssoClientID read
    have oldProvider := congrArg NetworkConfig.ssoProvider read
    dsimp only at oldURL oldIssuer oldCentral oldNonce oldState oldClient oldProvider
    have urlRead := readText_absent ((answers .authenticationURL).trans noUrl) id (rfl : id (charArray 2048 []) = _)
    have issuerRead := zeroText_restores (by decide) oldIssuer issuerClean ((answers .issuerURL).trans issuerEntry)
    have centralRead :=
      zeroText_restores (by decide) oldCentral centralClean ((answers .centralEndpointURL).trans centralEntry)
    have nonceRead := zeroText_restores (by decide) oldNonce nonceClean ((answers .nonce).trans nonceEntry)
    have stateRead := zeroText_restores (by decide) oldState stateClean ((answers .state).trans stateEntry)
    have clientRead := zeroText_restores (by decide) oldClient clientClean ((answers .clientID).trans clientEntry)
    have providerSize : nc.ssoProvider.length = defaultProvider.length := by
      rw [oldProvider]
      exact length_readText d _ (by decide) (fun _ _ => rfl)
    have providerRead : readText after .ssoProvider defaultProvider (fun _ => defaultProvider) = nc.ssoProvider :=
      readText_restores providerSize providerClean defaultProvider_ends
        ((answers .ssoProvider).trans providerEntry) (fun none => absurd none named)
    rw [urlRead, issuerRead, centralRead, nonceRead, stateRead, clientRead, providerRead]
    rw [← oldURL, ← oldIssuer, ← oldCentral, ← oldNonce, ← oldState, ← oldClient, ← oldProvider, noURL] at read
    exact read.symm
  · rw [if_neg enabled] at read ⊢
    exact read.symm

include answers persistable in
theorem readSso_restored {base : NetworkConfig} (initial : base = { base with
      authenticationURL := nil.authenticationURL, issuerURL := nil.issuerURL
      centralAuthURL := nil.centralAuthURL, ssoNonce := nil.ssoNonce, ssoState := nil.ssoState
      ssoClientID := nil.ssoClientID, ssoProvider := nil.ssoProvider })
    (read : nc = readSso d base) : nc = readSso after base := by
  have url : base.authenticationURL = charArray 2048 [] := congrArg NetworkConfig.authenticationURL initial
  rcases persistable.ssoVersion with implicit | full
  · exact (readSso_implicitFlow answers url read implicit (persistable.implicitFlow implicit)
      persistable.authenticationExpiryTime).symm
  · exact (readSso_fullFlow answers url (congrArg NetworkConfig.issuerURL initial)
      (congrArg NetworkConfig.centralAuthURL initial) (congrArg NetworkConfig.ssoNonce initial)
      (congrArg NetworkConfig.ssoState initial) (congrArg NetworkConfig.ssoClientID initial)
      (congrArg NetworkConfig.ssoProvider initial) read full persistable).symm

include accepts answers persistable in
/-- Every part of an accepted and persistable configuration is read back. -/
theorem accepts_restored
    (serialized : nc.certificatesOfOwnership.mapM (fun coo => coo.serialize false) = some certificates) :
    Accepts limits order after nc := by
  obtain ⟨-, -, -, -, -, -, -, flags, -, type, -, -⟩ := accepts.others
  have header := readHeader_restored accepts answers persistable
  have versionRead := getUI_number (answers .version) (by decide) 0
  have flagsRead := getUI_number (answers .flags) (by decide) 0
  have typeRead := getUI_number (answers .type) (by decide) 0
  rw [BitVec.setWidth_eq, flags] at flagsRead
  have sameType : (after.getUI ConfigKey.type.key 0).setWidth 32 = (d.getUI ConfigKey.type.key 0).setWidth 32 := by
    rw [typeRead, BitVec.setWidth_setWidth_of_le _ (by decide), BitVec.setWidth_eq, type]
  refine {
    networkId := by rw [header]; exact accepts.networkId
    issuedTo := by rw [header]; exact accepts.issuedTo
    version := by rw [versionRead]; decide
    com := readCom_restored accepts answers persistable
    capabilities := readCapabilities_restored accepts answers persistable
    tags := readTags_restored accepts answers persistable
    certificatesOfOwnership := readCertificatesOfOwnership_restored accepts answers serialized
    specialists := readSpecialists_restored accepts answers
    routes := readRoutes_restored accepts answers
    staticIps := readStaticIps_restored accepts answers
    rules := readRules_restored accepts answers
    dns := readDNS_restored accepts answers
    whole := ?_ }
  rw [header, flagsRead, sameType]
  exact readSso_restored answers persistable rfl accepts.whole

end Reload

section Small

/-- A configuration with a network, a member and a version of single sign-on. -/
def smallConfig (ssoVersion : BitVec 64) : NetworkConfig :=
  { nil with networkId := 1, issuedTo := 1, mtu := 2800, ssoVersion := ssoVersion }

theorem small_room : 0 < 16384 := by decide

def smallDictionary (ssoVersion : String) : Dictionary 16384 :=
  .load (ascii ("v=7\nnwid=1\nid=1\nssov=" ++ ssoVersion)) small_room

def insertionOrder : SortOrder := ⟨.insertion _, .insertion _⟩

theorem smallConfig_saved (ssoVersion : BitVec 64) (known : ssoVersion = 0 ∨ ssoVersion = 2) :
    ((smallConfig ssoVersion).toDictionary (smallDictionary "")).isSome = true := by
  rcases known with rfl | rfl <;> decide +kernel

theorem smallConfig_persistable : Persistable {} (smallConfig 0) where
  capabilityCount := by decide
  capabilityIds := by decide
  tagCount := by decide
  tagIds := by decide
  timestamp := by decide
  credentialTimeMaxDelta := by decide
  authenticationExpiryTime := by decide
  com := Or.inr rfl
  ssoVersion := by decide
  name := by
    unfold Clean
    decide +kernel
  implicitFlow := by
    unfold Clean
    decide +kernel
  fullFlow := by decide
  fullFlowTexts := by
    intro full
    exact absurd full (by decide)

end Small

end NetworkConfig

end ZeroTierNode
