import ZeroTierNode.Dictionary
import ZeroTierNode.Library.Records
import ZeroTierNode.Library.Sorting
import ZeroTierNode.NetworkConfig

/-!
Network configurations as dictionaries: `NetworkConfig::toDictionary` and
`NetworkConfig::fromDictionary`. The reader fills the arrays of the configuration
element by element; the model keeps the index of every element it writes to, also
when a later part of the dictionary makes it fail. The legacy format is not compiled
in, so a dictionary of a version below 6 is refused.
-/

namespace ZeroTierNode
open Library Library.Bytes Library.Records Buffer

/-- The keys `ZT_NETWORKCONFIG_DICT_KEY_*` in use. -/
inductive ConfigKey
  | version | networkId | timestamp | credentialTimeMaxDelta | revision | issuedTo
  | remoteTraceTarget | remoteTraceLevel | flags | multicastLimit | type | name | mtu
  | com | capabilities | tags | certificatesOfOwnership | specialists | routes | staticIps | rules | dns
  | ssoVersion | ssoEnabled | authenticationURL | authenticationExpiryTime
  | issuerURL | centralEndpointURL | nonce | state | clientID | ssoProvider
deriving DecidableEq, Repr

namespace ConfigKey

def text : ConfigKey → String
  | version => "v" | networkId => "nwid" | timestamp => "ts" | credentialTimeMaxDelta => "ctmd"
  | revision => "r" | issuedTo => "id" | remoteTraceTarget => "tt" | remoteTraceLevel => "tl"
  | flags => "f" | multicastLimit => "ml" | type => "t" | name => "n" | mtu => "mtu"
  | com => "C" | capabilities => "CAP" | tags => "TAG" | certificatesOfOwnership => "COO"
  | specialists => "S" | routes => "RT" | staticIps => "I" | rules => "R" | dns => "DNS"
  | ssoVersion => "ssov" | ssoEnabled => "ssoe" | authenticationURL => "aurl"
  | authenticationExpiryTime => "aexpt" | issuerURL => "iurl" | centralEndpointURL => "ssoce"
  | nonce => "sson" | state => "ssos" | clientID => "ssocid" | ssoProvider => "ssop"

def all : List ConfigKey :=
  [version, networkId, timestamp, credentialTimeMaxDelta, revision, issuedTo, remoteTraceTarget,
    remoteTraceLevel, flags, multicastLimit, type, name, mtu, com, capabilities, tags,
    certificatesOfOwnership, specialists, routes, staticIps, rules, dns, ssoVersion, ssoEnabled,
    authenticationURL, authenticationExpiryTime, issuerURL, centralEndpointURL, nonce, state, clientID,
    ssoProvider]

theorem mem_all (k : ConfigKey) : k ∈ all := by cases k <;> decide

/-- The names are made of letters, which come behind every illegal character. -/
theorem text_letters : ∀ k ∈ all, (ascii k.text).all (fun c => decide (64 < c.toNat)) = true := by decide

def key (k : ConfigKey) : Dictionary.Key where
  name := ascii k.text
  legal := by
    intro c found
    have letter : 64 < c.toNat := of_decide_eq_true (List.all_eq_true.mp (text_letters k (mem_all k)) c found)
    refine ⟨?_, ?_, ?_, ?_⟩
    all_goals
      intro same
      rw [same] at letter
      exact absurd letter (by decide)

/-- No two keys have the same name. -/
theorem key_inj {k other : ConfigKey} : k.key = other.key ↔ k = other := by
  have distinct : (all.map key).Nodup := by decide +kernel
  constructor
  · intro same
    exact List.inj_on_of_nodup_map distinct (mem_all k) (mem_all other) same
  · intro same
    rw [same]

end ConfigKey

/-- The arrays of a network configuration that `fromDictionary` fills. -/
inductive ConfigArray
  | specialists | routes | staticIps | rules | capabilities | tags | certificatesOfOwnership
deriving DecidableEq, Repr

/-- The array sizes; the last four are build options. -/
structure Limits where
  specialists : Nat := 256
  routes : Nat := 128
  staticIps : Nat := 32
  rules : Nat := 1024
  capabilities : Nat := 128
  tags : Nat := 128
  certificatesOfOwnership : Nat := 4

def Limits.size (limits : Limits) : ConfigArray → Nat
  | .specialists => limits.specialists
  | .routes => limits.routes
  | .staticIps => limits.staticIps
  | .rules => limits.rules
  | .capabilities => limits.capabilities
  | .tags => limits.tags
  | .certificatesOfOwnership => limits.certificatesOfOwnership

/-- An element of an array was written to, in whole or in part. -/
structure ArrayWrite where
  array : ConfigArray
  index : Nat
deriving DecidableEq, Repr

/-- A part of `fromDictionary`: its result, unless it throws or gives up, and the elements it wrote to. -/
structure Parse (α : Type) where
  result : Option α
  writes : List ArrayWrite
deriving DecidableEq

namespace Parse

variable {α β : Type}

def pure (value : α) : Parse α := ⟨some value, []⟩

def bind (first : Parse α) (next : α → Parse β) : Parse β :=
  match first.result with
  | none => ⟨none, first.writes⟩
  | some value => ⟨(next value).result, first.writes ++ (next value).writes⟩

instance : Monad Parse where
  pure := Parse.pure
  bind := Parse.bind

/-- Give up unless the condition holds. -/
def require (condition : Prop) [Decidable condition] : Parse Unit :=
  ⟨if condition then some () else none, []⟩

/-- A part that writes to no array. -/
def plain (result : Option α) : Parse α := ⟨result, []⟩

/-- A part that writes to the first `touched` elements of an array. -/
def fill (array : ConfigArray) (touched : Nat) (result : Option α) : Parse α :=
  ⟨result, (List.range touched).map (fun index => ⟨array, index⟩)⟩

theorem bind_result (first : Parse α) (next : α → Parse β) (value : β) :
    (first >>= next).result = some value ↔ ∃ found, first.result = some found ∧ (next found).result = some value := by
  change (Parse.bind first next).result = some value ↔ _
  unfold Parse.bind
  cases first.result with
  | none => simp
  | some found => simp

theorem require_result (condition : Prop) [Decidable condition] (value : Unit) :
    (require condition).result = some value ↔ condition := by
  unfold require
  by_cases holds : condition
  · simp [holds]
  · simp [holds]

theorem plain_result (result : Option α) : (plain result).result = result := rfl

theorem fill_result (array : ConfigArray) (touched : Nat) (result : Option α) :
    (fill array touched result).result = result := rfl

end Parse

/-- `DNS::serializeDNS`. -/
def serializeDNS (dns : VirtualNetworkDNS) : List Byte :=
  dns.domain ++ dns.serverAddr.flatMap InetAddress.serialize

/-- Read `count` consecutive addresses. -/
def readServers (b : List Byte) : Nat → Nat → Option (List InetAddress)
  | _, 0 => some []
  | p, count + 1 => do
      let (addr, taken) ← InetAddress.deserialize b p
      let addrs ← readServers b (p + taken) count
      return addr :: addrs

/-- `DNS::deserializeDNS`. The domain is copied unchecked, but behind a buffer that ends inside it the
first address throws. -/
def deserializeDNS (b : List Byte) : Option VirtualNetworkDNS := do
  let domain ← fieldAt b 0 128
  let serverAddr ← readServers b 128 4
  return ⟨domain.set 127 0, serverAddr⟩

namespace Route

def serialize (route : Route) : List Byte :=
  route.target.serialize ++ route.via.serialize ++ wordBytes 2 route.flags ++ wordBytes 2 route.metric

/-- One turn of the loop over the routes. -/
def deserialize (b : List Byte) (p : Nat) : Option (Route × Nat) := do
  let (target, first) ← InetAddress.deserialize b p
  let (via, second) ← InetAddress.deserialize b (p + first)
  let flags ← at16 b (p + first + second)
  let metric ← at16 b (p + first + second + 2)
  return (⟨target, via, flags, metric⟩, first + second + 4)

end Route

/-- One turn of the loop over the specialists. -/
def readSpecialist (b : List Byte) (p : Nat) : Option (BitVec 64 × Nat) := (at64 b p).map (fun word => (word, 8))

/-- One turn of `deserializeRules` with the number of bytes it takes. -/
def readRule (b : List Byte) (p : Nat) : Option (Rule × Nat) :=
  (deserializeRule b p).map (fun read => (read.1, read.2 - p))

/-- The orders in which `std::sort` may leave capabilities and tags; both are compared by id. -/
structure SortOrder where
  capabilities : Sorting (fun cap : Capability => cap.id.toNat)
  tags : Sorting (fun tag : Tag => tag.id.toNat)

namespace NetworkConfig

section Reading

variable {capacity : Nat} (limits : Limits) (order : SortOrder) (d : Dictionary capacity)

/-- The records under a key, with room for `room` of them; a missing key has none. -/
def recordsOf {α : Type} (k : ConfigKey) (read : List Byte → Nat → Option (α × Nat))
    (room : List Byte → Nat) : List α × Bool :=
  match d.getBuffer k.key with
  | none => ([], true)
  | some tmp => readRecords read tmp (room tmp) 0

def readCom : Option CertificateOfMembership :=
  match d.getBuffer ConfigKey.com.key with
  | none => some .nil
  | some tmp => (CertificateOfMembership.deserialize tmp 0).map Prod.fst

/-- Every capability is stored behind the last one; what throws only ends the loop. -/
def readCapabilities : Parse (List Capability) :=
  let read := recordsOf d .capabilities Capability.deserialize List.length
  .fill .capabilities read.1.length (some (order.capabilities.sort read.1))

def readTags : Parse (List Tag) :=
  let read := recordsOf d .tags Tag.deserialize List.length
  .fill .tags read.1.length (some (order.tags.sort read.1))

/-- A certificate beyond the array is read into a variable of its own. -/
def readCertificatesOfOwnership : Parse (List CertificateOfOwnership) :=
  let (records, finished) := recordsOf d .certificatesOfOwnership CertificateOfOwnership.deserialize List.length
  .fill .certificatesOfOwnership
    (min limits.certificatesOfOwnership (records.length + if finished then 0 else 1))
    (if finished then some (records.take limits.certificatesOfOwnership) else none)

/-- Words beyond the array are skipped, and so is a rest of fewer than 8 bytes. -/
def readSpecialists : Parse (List (BitVec 64)) :=
  let records := (recordsOf d .specialists readSpecialist List.length).1
  .fill .specialists (min limits.specialists records.length) (some (records.take limits.specialists))

/-- A loop that stops at the end of its array; the record that throws has been written in part. -/
def readBounded {α : Type} (array : ConfigArray) (k : ConfigKey)
    (read : List Byte → Nat → Option (α × Nat)) : Parse (List α) :=
  let (records, finished) := recordsOf d k read (fun _ => limits.size array)
  .fill array (records.length + if finished then 0 else 1) (if finished then some records else none)

def readRoutes : Parse (List Route) := readBounded limits d .routes .routes Route.deserialize

def readStaticIps : Parse (List InetAddress) := readBounded limits d .staticIps .staticIps InetAddress.deserialize

/-- `Capability::deserializeRules` into the configuration's own rules. -/
def readRules : Parse (List Rule) := readBounded limits d .rules .rules readRule

def readDNS : Option VirtualNetworkDNS :=
  match d.getBuffer ConfigKey.dns.key with
  | none => some nil.dns
  | some tmp => deserializeDNS tmp

/-- A text whose last byte is set to NUL when something was stored. -/
def readText (k : ConfigKey) (dest : List Byte) (otherwise : List Byte → List Byte) : List Byte :=
  let (text, stored) := d.get k.key dest
  if 0 < stored.getD 0 then text.set (dest.length - 1) 0 else otherwise text

def defaultProvider : List Byte := charArray 64 (ascii "default")

/-- The single sign-on fields, over a configuration that has their initial values. -/
def readSso (nc : NetworkConfig) : NetworkConfig :=
  let ssoVersion := d.getUI ConfigKey.ssoVersion.key 0
  let ssoEnabled := d.getB ConfigKey.ssoEnabled.key false
  let nc := { nc with ssoVersion := ssoVersion, ssoEnabled := ssoEnabled }
  if ssoVersion = 0 then
    if ssoEnabled then
      { nc with
        authenticationURL := readText d .authenticationURL nc.authenticationURL (fun text => text.set 0 0)
        authenticationExpiryTime := d.getI ConfigKey.authenticationExpiryTime.key 0 }
    else { nc with authenticationURL := nc.authenticationURL.set 0 0, authenticationExpiryTime := 0 }
  else if ssoVersion = 1 then
    if ssoEnabled then
      { nc with
        authenticationURL := readText d .authenticationURL nc.authenticationURL id
        issuerURL := readText d .issuerURL nc.issuerURL id
        centralAuthURL := readText d .centralEndpointURL nc.centralAuthURL id
        ssoNonce := readText d .nonce nc.ssoNonce id
        ssoState := readText d .state nc.ssoState id
        ssoClientID := readText d .clientID nc.ssoClientID id
        ssoProvider := readText d .ssoProvider nc.ssoProvider (fun _ => defaultProvider) }
    else
      { nc with
        authenticationURL := nc.authenticationURL.set 0 0
        authenticationExpiryTime := 0
        centralAuthURL := nc.centralAuthURL.set 0 0
        ssoNonce := nc.ssoNonce.set 0 0
        ssoState := nc.ssoState.set 0 0
        ssoClientID := nc.ssoClientID.set 0 0
        issuerURL := nc.issuerURL.set 0 0
        ssoProvider := nc.ssoProvider.set 0 0 }
  else nc

/-- At least 1280, the minimum that IPv6 allows, and at most `ZT_MAX_MTU`. -/
def clampMtu (mtu : BitVec 32) : BitVec 32 :=
  if mtu.toNat < 1280 then 1280 else if 10000 < mtu.toNat then 10000 else mtu

/-- The fields that are read before the version is looked at; `ZT_DEFAULT_MTU` is 2800. -/
def readHeader : NetworkConfig :=
  { nil with
    networkId := d.getUI ConfigKey.networkId.key 0
    timestamp := d.getUI ConfigKey.timestamp.key 0
    credentialTimeMaxDelta := d.getUI ConfigKey.credentialTimeMaxDelta.key 0
    revision := d.getUI ConfigKey.revision.key 0
    issuedTo := Address.ofInt (d.getUI ConfigKey.issuedTo.key 0)
    remoteTraceTarget := Address.ofInt (d.getUI ConfigKey.remoteTraceTarget.key 0)
    remoteTraceLevel := (d.getUI ConfigKey.remoteTraceLevel.key 0).setWidth 32
    multicastLimit := (d.getUI ConfigKey.multicastLimit.key 0).setWidth 32
    name := (d.get ConfigKey.name.key nil.name).1
    mtu := clampMtu ((d.getUI ConfigKey.mtu.key 2800).setWidth 32) }

def fromDictionary : Parse NetworkConfig := do
  let header := readHeader d
  Parse.require (header.networkId ≠ 0)
  Parse.require (header.issuedTo ≠ 0)
  Parse.require (6 ≤ (d.getUI ConfigKey.version.key 0).toNat)
  let com ← Parse.plain (readCom d)
  let capabilities ← readCapabilities order d
  let tags ← readTags order d
  let certificatesOfOwnership ← readCertificatesOfOwnership limits d
  let specialists ← readSpecialists limits d
  let routes ← readRoutes limits d
  let staticIps ← readStaticIps limits d
  let rules ← readRules limits d
  let dns ← Parse.plain (readDNS d)
  return readSso d
    { header with
      flags := d.getUI ConfigKey.flags.key 0
      type := (d.getUI ConfigKey.type.key 0).setWidth 32
      com, capabilities, tags, certificatesOfOwnership, specialists, routes, staticIps, rules, dns }

end Reading

section Writing

/-- `Dictionary::add` of an unsigned number: 16 digits. -/
def number (k : ConfigKey) {width : Nat} (value : BitVec width) : Dictionary.Key × List Byte :=
  (k.key, Hex.digits 16 value.toNat)

/-- `Dictionary::add` of a signed number. The minus sign of a negative one stands before the digits that
are handed on, and is lost. -/
def signedNumber (k : ConfigKey) (value : BitVec 64) : Dictionary.Key × List Byte :=
  number k (if value.msb then -value else value)

/-- An address is written by `toString` with 10 digits. -/
def addressText (k : ConfigKey) (a : Address) : Dictionary.Key × List Byte := (k.key, Hex.digits 10 a.toNat)

/-- A character array is added as a C string. -/
def textEntry (k : ConfigKey) (array : List Byte) : Dictionary.Key × List Byte := (k.key, cString array)

def flagEntry (k : ConfigKey) (value : Bool) : Dictionary.Key × List Byte :=
  (k.key, if value then [0x31] else [0x30])

/-- A binary value is added when it is not empty. -/
def blob (k : ConfigKey) (tmp : List Byte) : List (Dictionary.Key × List Byte) :=
  if tmp = [] then [] else [(k.key, tmp)]

variable (nc : NetworkConfig)

def headerEntries : List (Dictionary.Key × List Byte) :=
  [number .version (7 : BitVec 64), number .networkId nc.networkId, signedNumber .timestamp nc.timestamp,
    signedNumber .credentialTimeMaxDelta nc.credentialTimeMaxDelta, number .revision nc.revision,
    addressText .issuedTo nc.issuedTo, addressText .remoteTraceTarget nc.remoteTraceTarget,
    number .remoteTraceLevel nc.remoteTraceLevel, number .flags nc.flags,
    number .multicastLimit nc.multicastLimit, number .type nc.type, textEntry .name nc.name,
    number .mtu nc.mtu]

def ssoEntries : List (Dictionary.Key × List Byte) :=
  if nc.ssoVersion = 0 then
    [number .ssoVersion nc.ssoVersion, flagEntry .ssoEnabled nc.ssoEnabled] ++
      (if nc.ssoEnabled then
        blob .authenticationURL (cString nc.authenticationURL) ++
          [number .authenticationExpiryTime nc.authenticationExpiryTime]
       else [])
  else if nc.ssoVersion = 1 then
    [number .ssoVersion nc.ssoVersion, flagEntry .ssoEnabled nc.ssoEnabled,
      textEntry .issuerURL nc.issuerURL, textEntry .centralEndpointURL nc.centralAuthURL,
      textEntry .nonce nc.ssoNonce, textEntry .state nc.ssoState, textEntry .clientID nc.ssoClientID,
      textEntry .ssoProvider nc.ssoProvider]
  else []

def comEntries : List (Dictionary.Key × List Byte) :=
  if nc.com.isSet then [(ConfigKey.com.key, nc.com.serialize)] else []

/-- What `toDictionary` adds, in its order. There is no value when a certificate of ownership counts
more things than its array holds. -/
def entries : Option (List (Dictionary.Key × List Byte)) := do
  let certificates ← nc.certificatesOfOwnership.mapM (fun coo => coo.serialize false)
  return headerEntries nc ++
    comEntries nc ++
    blob .capabilities (nc.capabilities.flatMap (fun cap => cap.serialize false)) ++
    blob .tags (nc.tags.flatMap (fun tag => tag.serialize false)) ++
    blob .certificatesOfOwnership certificates.flatten ++
    blob .specialists (nc.specialists.flatMap (wordBytes 8)) ++
    blob .routes (nc.routes.flatMap Route.serialize) ++
    blob .staticIps (nc.staticIps.flatMap InetAddress.serialize) ++
    blob .rules (serializeRules nc.rules) ++
    blob .dns (serializeDNS nc.dns) ++
    ssoEntries nc

/-- `toDictionary` into a dictionary that it clears first. A binary value too large for the buffer in
which it is composed is too large for the dictionary as well. -/
def toDictionary {capacity : Nat} (d : Dictionary capacity) : Option (Dictionary capacity) := do
  let entries ← nc.entries
  d.clear.addAll entries

end Writing

end NetworkConfig

end ZeroTierNode
